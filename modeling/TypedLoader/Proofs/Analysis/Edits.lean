import TypedLoader.Proofs.Analysis.Importing
import TypedLoader.Proofs.Dependencies.Graph

namespace TypedLoader

open Relation (ReflTransGen)

namespace Compilation

open Analysis (Walk)

/-- A call that stores a file or analyses one. Every analysis finds a world of
its own. -/
inductive Edit where
  | add (p : Path) (text : String)
  | update (p : Path) (text : String) (checked : Bool)
  | check (w : World) (p : Path)

namespace Edit

def apply (c : Compilation) : Edit → Compilation
  | add p text => c.add p text
  | update p text checked => (c.update p text checked).2
  | check w p => ((Compilation.check w p).run c).state

def TypesDeclared (options : Json.Object) : Edit → Prop
  | check w _ => Analysis.TypesDeclared w options
  | _ => True

end Edit

section Editing

variable {options : Json.Object} {c : Compilation}

theorem Closed.apply (h : c.Closed) (hs : c.Sensitive) (e : Edit) (he : e.TypesDeclared c.options) :
    (e.apply c).Closed ∧ (e.apply c).Sensitive ∧ (e.apply c).options = c.options := by
  cases e with
  | add p text =>
    refine ⟨h.store rfl ?_, ⟨hs.files_case, hs.deps_case, hs.kept.add p text⟩, rfl⟩
    intro key hk
    exact (FileStore.mem_put ..).2 (Or.inr hk)
  | update p text checked =>
    have hcase := FileStore.case_update c.files p text checked
    refine ⟨h.store hcase ?_,
      ⟨hcase.trans hs.files_case, hs.deps_case, hs.kept.update p text checked⟩, rfl⟩
    intro key hk
    exact (FileStore.mem_update hs.kept p text checked key).2 (Or.inr hk)
  | check w p =>
    obtain ⟨hclosed, hsensitive⟩ := h.check hs he p
    refine ⟨hclosed, hsensitive, ?_⟩
    rw [Edit.apply, run_check]
    rfl

end Editing

end Compilation

end TypedLoader
