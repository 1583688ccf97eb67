import TypedLoader.Checker.Session
import TypedLoader.Proofs.Compilation

namespace TypedLoader

def Request.text? : Request → Option (Path × String)
  | .updateFile file text _ => some (file, text)
  | .emitFile file text => some (file, text)
  | .registerFile file text => some (file, text)
  | _ => none

namespace Session

open TypedLoader.Action (Keeps)

/-- The session after requests, each answered in the world as it is then. -/
def through (s : Session) (history : List (World × Request)) : Session :=
  history.foldl (fun s p ↦ ((handle p.1 p.2).run s).state) s

def Holds (P : Compilation → Prop) (s : Session) : Prop :=
  ∀ t, s.started = some t → P t.compilation

/-- A request gives a new compilation the property, and keeps it with every change
that it may make. -/
structure Kept (P : Compilation → Prop) (w : World) (r : Request) : Prop where
  make : ∀ {setup}, r = .init setup →
    P (Compilation.make setup.options (setup.settings.case.getD w.defaultCase))
  received : ∀ {file text}, r.text? = some (file, text) → ∀ c, P c → P (c.received file text)
  check : ∀ {file text}, r.text? = some (file, text) → Keeps P (Compilation.check w file)
  remove : ∀ {file}, r = .removeFile file → ∀ c, P c → P (c.remove file).2
  built : ∀ (c : Compilation) (built : Option BuiltProgram), P c → P { c with built }

section Handling

variable {P : Compilation → Prop} {s : Session} {w : World} {r : Request}

theorem updateFile_eq (file : Path) (text : String) (onlyKnown : Bool) (c : Compilation) :
    updateFile file text onlyKnown c =
      if onlyKnown && !c.has file then c
      else if (c.update file text true).1 then (c.received file text).dropProgram
      else c.received file text := by
  rw [updateFile, Compilation.received]
  split
  · rfl
  · cases hu : (c.update file text true).1 <;> simp [hu]

theorem Kept.updateFile {file : Path} {text : String} {onlyKnown : Bool}
    (hk : Kept P w (.updateFile file text onlyKnown)) {c : Compilation} (h : P c) :
    P (Session.updateFile file text onlyKnown c) := by
  have hreceived := hk.received rfl c h
  rw [updateFile_eq]
  split
  · exact h
  · split
    · exact hk.built _ none hreceived
    · exact hreceived

theorem Kept.removeFile {file : Path} (hk : Kept P w (.removeFile file)) {c : Compilation}
    (h : P c) : P (Session.removeFile file c) := by
  have hremove := hk.remove rfl c h
  rw [Session.removeFile]
  rcases hr : c.remove file with ⟨removed, c'⟩
  rw [hr] at hremove
  cases removed with
  | true => exact hk.built _ none hremove
  | false => exact hremove

theorem Holds.onCompilation {α : Type} {a : Started → Action Compilation CheckError α}
    (h : s.Holds P) (ha : ∀ t, Keeps P (a t)) : ((onCompilation a).run s).state.Holds P := by
  rw [Action.run, Session.onCompilation]
  split
  · exact h
  · rename_i t ht
    intro t' ht'
    obtain rfl := Option.some.inj ht'
    exact ha t t.compilation (h t ht)

theorem run_onCompilation_none {α : Type} (a : Started → Action Compilation CheckError α) :
    (onCompilation a).run ⟨none⟩ = ⟨.error .notInitialized, ⟨none⟩, []⟩ := rfl

theorem run_onCompilation {α : Type} (a : Started → Action Compilation CheckError α) (t : Started) :
    (onCompilation a).run ⟨some t⟩ =
      ⟨((a t).run t.compilation).result,
        ⟨some { t with compilation := ((a t).run t.compilation).state }⟩,
        ((a t).run t.compilation).calls⟩ := rfl

theorem result_onCompilation {α : Type} {t : Started} (hs : s.started = some t)
    (a : Started → Action Compilation CheckError α) :
    ((onCompilation a).run s).result = ((a t).run t.compilation).result := by
  rw [Action.run, Session.onCompilation, hs]
  rfl

theorem started_onCompilation {α : Type} {t : Started} (hs : s.started = some t)
    (a : Started → Action Compilation CheckError α) :
    ((onCompilation a).run s).state.started =
      some { t with compilation := ((a t).run t.compilation).state } := by
  rw [Action.run, Session.onCompilation, hs]
  rfl

theorem run_handle_of {α : Type} (a : Started → Action Compilation CheckError α)
    (content : α → Json) {t : Started} (hs : s.started = some t)
    (hhandle : Session.handle w r = Session.onCompilation fun t ↦ a t >>= fun x ↦ pure (content x)) :
    ((Session.handle w r).run s).result = ((a t).run t.compilation).result.map content ∧
      ((Session.handle w r).run s).state.started =
        some { t with compilation := ((a t).run t.compilation).state } := by
  obtain ⟨hresult, hstate⟩ := Action.run_bind_pure (a t) content t.compilation
  rw [hhandle, result_onCompilation hs, started_onCompilation hs, hresult, hstate]
  exact ⟨rfl, rfl⟩

theorem Holds.handle (h : s.Holds P) (hk : Kept P w r) : ((handle w r).run s).state.Holds P := by
  have hsync {file : Path} {text : String} (hr : r.text? = some (file, text)) :
      Keeps P (Compilation.sync w file text) :=
    Compilation.keeps_sync (hk.received hr) (hk.check hr) fun c ↦ hk.built c none
  cases r with
  | init setup =>
    rw [Session.handle, init]
    simp only
    split
    · exact h
    · rintro t ht
      obtain rfl := Option.some.inj ht
      exact hk.make rfl
  | updateFile file text onlyKnown =>
    exact h.onCompilation fun _ ↦ .bind (Action.keeps_modify fun _ ↦ hk.updateFile) fun _ ↦
      Action.keeps_pure _
  | removeFile file =>
    exact h.onCompilation fun _ ↦ .bind (Action.keeps_modify fun _ ↦ hk.removeFile) fun _ ↦
      Action.keeps_pure _
  | emitFile file text =>
    exact h.onCompilation fun t ↦ .bind
      (.mapError (Compilation.keeps_compile (hsync rfl) hk.built t.settings.transpileOnly) _)
      fun _ ↦ Action.keeps_pure _
  | registerFile file text =>
    exact h.onCompilation fun _ ↦ .bind
      (.mapError (Compilation.keeps_register (hsync rfl)) _) fun _ ↦ Action.keeps_pure _
  | diagnostics =>
    exact h.onCompilation fun t ↦ .bind (Compilation.keeps_reports w hk.built _ _) fun _ ↦
      Action.keeps_pure _
  | files => exact h.onCompilation fun _ ↦ .bind Action.keeps_get fun _ ↦ Action.keeps_pure _

theorem Holds.through {history : List (World × Request)} (h : s.Holds P)
    (hk : ∀ x ∈ history, Kept P x.1 x.2) : (s.through history).Holds P := by
  induction history generalizing s with
  | nil => exact h
  | cons x history ih =>
    obtain ⟨hx, hrest⟩ := List.forall_mem_cons.1 hk
    exact ih (h.handle hx) hrest

theorem holds_empty (P : Compilation → Prop) : ({} : Session).Holds P := by
  intro t ht
  cases ht

end Handling

end Session

end TypedLoader
