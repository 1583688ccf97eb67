import Mathlib.Order.Defs.LinearOrder
import TypedLoader.Loader.Provider
import TypedLoader.Proofs.Loader.Checking

namespace TypedLoader

open TypedLoader.Action (Keeps run_bind_of_ok run_bind_of_error run_get_bind run_ofExcept_bind)

structure InstanceRequest where
  provider : Provider
  surroundings : Surroundings
  context : BuildContext
  config : LoaderConfig
  bundler : Json

namespace InstanceRequest

def name (q : InstanceRequest) : String := q.config.instanceName

def run (q : InstanceRequest) : Loader → Outcome Loader LoadError Instance :=
  (Loader.ensureFrom q.provider q.surroundings q.context q.config q.bundler).run

end InstanceRequest

inductive InstanceCall where
  | ensure (q : InstanceRequest)
  | remove (ctx : BuildContext) (name : String)
  | edit (d : Disk)

namespace InstanceCall

def run (l : Loader) : InstanceCall → Loader
  | ensure q => (q.run l).state
  | remove ctx name => (l.removeInstance ctx name).2
  | edit d => { l with disk := d }

def Removes (ctx : BuildContext) (name : String) : InstanceCall → Prop
  | remove ctx' name' => ctx'.tree = ctx.tree ∧ name' = name
  | _ => False

theorem Removes.of_tree {ctx ctx' : BuildContext} {name : String} {call : InstanceCall}
    (h : call.Removes ctx name) (htree : ctx'.tree = ctx.tree) : call.Removes ctx' name := by
  cases call with
  | remove => exact ⟨h.1.trans htree.symm, h.2⟩
  | ensure => exact h
  | edit => exact h

end InstanceCall

namespace Loader

variable {l l' l₁ : Loader} {ctx ctx' : BuildContext} {name : String} {i j : Instance}

def called (l : Loader) (calls : List InstanceCall) : Loader := calls.foldl InstanceCall.run l

/-- The instances that a build has of its own. All requests go to the top of its tree, so
that a child has none. -/
def own (l : Loader) : BuildContext → Instances
  | .top tree _ => l.trees[tree]?.getD ∅
  | .child .. => ∅

theorem instancesOf_eq_own (l : Loader) (ctx : BuildContext) :
    l.instancesOf ctx = l.own ctx.root := by
  induction ctx with
  | top => rfl
  | child parent name ih => exact ih

structure Untouched (l l' : Loader) : Prop where
  trees : l'.trees = l.trees
  made : l'.made = l.made
  disk : l'.disk = l.disk

theorem Untouched.instance? (h : Untouched l l') (ctx : BuildContext) (name : String) :
    l'.instance? ctx name = l.instance? ctx name := by
  rw [Loader.instance?, Loader.instance?, instancesOf, instancesOf, h.trees]

theorem untouched_startChecker (s : Surroundings) (config : LoaderConfig) (context : Path)
    (setup : Setup) : Keeps (Untouched l) (startChecker s config context setup) := by
  refine .bind (fun _ h ↦ h) fun connector ↦
    .bind (fun _ h ↦ ⟨h.trees, h.made, h.disk⟩) fun n ↦ .bind (fun _ h ↦ h) fun client l' h ↦ ?_
  rw [Action.state_execOn]
  exact h

theorem untouched_make (s : Surroundings) (config : LoaderConfig) (bundler : Json) (l : Loader) :
    Untouched l ((make s config bundler).run l).state := by
  cases hproject : config.project l.disk (config.context.getD s.workingDirectory) with
  | error e =>
    rw [(run_make_of_error hproject).2]
    exact ⟨rfl, rfl, rfl⟩
  | ok project =>
    rw [(run_make s bundler hproject).2]
    cases hmode : config.forkChecker with
    | false =>
      rw [checkerFor_here hmode]
      exact ⟨rfl, rfl, rfl⟩
    | true =>
      rw [(checkerFor_forked hmode _).2]
      exact untouched_startChecker s config _ _ l ⟨rfl, rfl, rfl⟩

theorem serial_make {s : Surroundings} {config : LoaderConfig} {bundler : Json}
    (h : ((make s config bundler).run l).result = .ok i) : i.serial = l.made := by
  obtain ⟨_, _, _, -, -, -, rfl⟩ := assembled_of_make h
  rfl

theorem run_makeFrom_cases (provider : Provider) (s : Surroundings) (config : LoaderConfig)
    (bundler : Json) (l : Loader) :
    (∃ e, (makeFrom provider s config bundler).run l = ⟨.error e, l, []⟩) ∨
      ∃ project compiler,
        config.project l.disk (config.context.getD s.workingDirectory) = .ok project ∧
        provider config project.compilerOptions = .ok compiler ∧
        (makeFrom provider s config bundler).run l =
          (make (s.withCompiler compiler) config bundler).run l := by
  rw [makeFrom, run_get_bind]
  cases hproject : config.project l.disk (config.context.getD s.workingDirectory) with
  | error e => exact Or.inl ⟨_, rfl⟩
  | ok project =>
    rw [run_ofExcept_bind rfl]
    cases hcompiler : provider config project.compilerOptions with
    | error reason => exact Or.inl ⟨_, rfl⟩
    | ok compiler =>
      rw [run_ofExcept_bind rfl]
      exact Or.inr ⟨project, compiler, rfl, hcompiler, rfl⟩

theorem run_makeFrom_shared (s : Surroundings) (config : LoaderConfig) (bundler : Json)
    (l : Loader) : (makeFrom (.shared s.world.compiler) s config bundler).run l =
      (make s config bundler).run l := by
  rw [makeFrom, run_get_bind]
  cases hproject : config.project l.disk (config.context.getD s.workingDirectory) with
  | error e =>
    rw [make, run_get_bind, hproject]
    rfl
  | ok project =>
    have hprovided : Provider.shared s.world.compiler config project.compilerOptions =
        .ok s.world.compiler := rfl
    rw [run_ofExcept_bind rfl, run_ofExcept_bind hprovided]
    rfl

theorem run_ensureFrom_shared (s : Surroundings) (ctx : BuildContext) (config : LoaderConfig)
    (bundler : Json) (l : Loader) :
    (ensureFrom (.shared s.world.compiler) s ctx config bundler).run l =
      (ensure s ctx config bundler).run l := by
  rw [ensureFrom, ensure, run_get_bind, run_get_bind]
  cases l.instance? ctx config.instanceName with
  | some i => rfl
  | none =>
    dsimp only
    rw [Action.run_bind, Action.run_bind, run_makeFrom_shared]

/-- A new instance stands in its place, with a number that none had before. -/
structure Made (l : Loader) (ctx : BuildContext) (i : Instance) (l' : Loader) : Prop where
  puts : Puts l ctx i l'
  serial : i.serial = l.made
  made : l'.made = l.made + 1

theorem run_request_of_found {q : InstanceRequest} (h : l.instance? q.context q.name = some i) :
    q.run l = ⟨.ok i, l, []⟩ := by
  have h : l.instance? q.context q.config.instanceName = some i := h
  rw [InstanceRequest.run, ensureFrom, run_get_bind, h]
  rfl

theorem run_request_of_free {q : InstanceRequest} (h : l.instance? q.context q.name = none) :
    q.run l = (makeFrom q.provider q.surroundings q.config q.bundler >>= fun i ↦ do
      Action.modify fun l ↦ { l.put q.context i with made := l.made + 1 }
      pure i).run l := by
  have h : l.instance? q.context q.config.instanceName = none := h
  rw [InstanceRequest.run, ensureFrom, run_get_bind, h]

theorem ensured_cases (q : InstanceRequest) (l : Loader) :
    (∃ i, l.instance? q.context q.name = some i ∧ (q.run l).result = .ok i ∧
      (q.run l).state = l) ∨
    l.instance? q.context q.name = none ∧
      ((∃ e, (q.run l).result = .error e ∧ Untouched l (q.run l).state) ∨
        ∃ i, (q.run l).result = .ok i ∧ i.name = q.name ∧ Made l q.context i (q.run l).state) := by
  cases hplace : l.instance? q.context q.name with
  | some i =>
    rw [run_request_of_found hplace]
    exact Or.inl ⟨i, rfl, rfl, rfl⟩
  | none =>
    have hrun := run_request_of_free hplace
    refine Or.inr ⟨rfl, ?_⟩
    rcases run_makeFrom_cases q.provider q.surroundings q.config q.bundler l with
      ⟨e, hmake⟩ | ⟨project, compiler, -, -, hmake⟩
    · have hrun := hrun.trans (run_bind_of_error (congrArg Outcome.result hmake) _)
      rw [hrun, hmake]
      exact Or.inl ⟨e, rfl, rfl, rfl, rfl⟩
    have huntouched := untouched_make (q.surroundings.withCompiler compiler) q.config q.bundler l
    rw [← hmake] at huntouched
    cases hresult : ((makeFrom q.provider q.surroundings q.config q.bundler).run l).result with
    | error e =>
      have hrun := hrun.trans (run_bind_of_error hresult _)
      rw [hrun]
      exact Or.inl ⟨e, rfl, huntouched⟩
    | ok i =>
      have hrun := hrun.trans (run_bind_of_ok hresult _)
      rw [hmake] at hresult
      rw [hrun]
      generalize ((makeFrom q.provider q.surroundings q.config q.bundler).run l).state = l₁
        at huntouched
      have hname : i.name = q.name := congrArg LoaderConfig.instanceName (make_quiet hresult).1
      have hput := puts_put l₁ q.context i
      refine Or.inr ⟨i, rfl, hname, ⟨hput.self, fun ctx name h ↦ ?_, huntouched.disk⟩,
        serial_make hresult, congrArg (· + 1) huntouched.made⟩
      exact (hput.others ctx name h).trans (huntouched.instance? ctx name)

theorem instance?_removeInstance (l : Loader) (ctx ctx' : BuildContext) (name name' : String) :
    (l.removeInstance ctx' name').2.instance? ctx name =
      if ctx'.tree = ctx.tree ∧ name' = name then none else l.instance? ctx name := by
  rw [Loader.instance?, Loader.instance?, instancesOf, removeInstance,
    Std.ExtTreeMap.getElem?_insert]
  by_cases htree : ctx'.tree = ctx.tree
  · rw [if_pos (Std.LawfulEqCmp.compare_eq_iff_eq.2 htree), Option.getD_some,
      Std.ExtTreeMap.getElem?_erase, instancesOf, instancesOf, htree]
    by_cases hname : name' = name
    · rw [if_pos (Std.LawfulEqCmp.compare_eq_iff_eq.2 hname), if_pos ⟨rfl, hname⟩]
    · rw [if_neg fun h ↦ hname (Std.LawfulEqCmp.compare_eq_iff_eq.1 h), if_neg fun h ↦ hname h.2]
  · rw [if_neg fun h ↦ htree (Std.LawfulEqCmp.compare_eq_iff_eq.1 h), if_neg fun h ↦ htree h.1,
      instancesOf]

/-- Every instance stands under its own name in no more than one place, and its number has
been given out. -/
structure Tidy (l : Loader) : Prop where
  named : l.Named
  numbered : ∀ ctx name i, l.instance? ctx name = some i → i.serial < l.made
  apart : ∀ ctx ctx' name name' i j, l.instance? ctx name = some i →
    l.instance? ctx' name' = some j → j.serial = i.serial → ctx'.tree = ctx.tree ∧ name' = name

theorem tidy_empty (d : Disk) : Tidy { disk := d } where
  named ctx name i h := by
    rw [instance?_empty] at h
    cases h
  numbered ctx name i h := by
    rw [instance?_empty] at h
    cases h
  apart ctx ctx' name name' i j h := by
    rw [instance?_empty] at h
    cases h

theorem Tidy.of_fewer (h : l.Tidy) (hmade : l.made ≤ l'.made)
    (hfewer : ∀ ctx name i, l'.instance? ctx name = some i → l.instance? ctx name = some i) :
    l'.Tidy where
  named ctx name i hi := h.named ctx name i (hfewer _ _ _ hi)
  numbered ctx name i hi := (h.numbered ctx name i (hfewer _ _ _ hi)).trans_le hmade
  apart ctx ctx' name name' i j hi hj := h.apart ctx ctx' name name' i j (hfewer _ _ _ hi)
    (hfewer _ _ _ hj)

theorem Tidy.of_made (h : l.Tidy) (hmade : Made l ctx i l') : l'.Tidy where
  named := h.named.puts hmade.puts
  numbered ctx' name j hj := by
    rw [hmade.made]
    rcases hmade.puts.instance? ctx' name with ⟨-, -, hself⟩ | hsame
    · obtain rfl := Option.some.inj (hself.symm.trans hj)
      exact hmade.serial ▸ Nat.lt_succ_self _
    · exact Nat.lt_succ_of_lt (h.numbered ctx' name j (hsame ▸ hj))
  apart ctx₁ ctx₂ name₁ name₂ j k hj hk hserial := by
    rcases hmade.puts.instance? ctx₁ name₁ with ⟨htree₁, rfl, hself₁⟩ | hsame₁ <;>
      rcases hmade.puts.instance? ctx₂ name₂ with ⟨htree₂, rfl, hself₂⟩ | hsame₂
    · exact ⟨htree₂.trans htree₁.symm, rfl⟩
    · obtain rfl := Option.some.inj (hself₁.symm.trans hj)
      have hold := h.numbered ctx₂ name₂ k (hsame₂ ▸ hk)
      rw [hserial, hmade.serial] at hold
      exact absurd hold (Nat.lt_irrefl _)
    · obtain rfl := Option.some.inj (hself₂.symm.trans hk)
      have hold := h.numbered ctx₁ name₁ j (hsame₁ ▸ hj)
      rw [← hserial, hmade.serial] at hold
      exact absurd hold (Nat.lt_irrefl _)
    · exact h.apart ctx₁ ctx₂ name₁ name₂ j k (hsame₁ ▸ hj) (hsame₂ ▸ hk) hserial

theorem Tidy.run (h : l.Tidy) (call : InstanceCall) : (call.run l).Tidy := by
  cases call with
  | ensure q =>
    rcases ensured_cases q l with ⟨i, -, -, hstate⟩ | ⟨-, ⟨e, -, hsame⟩ | ⟨i, -, -, hmade⟩⟩
    · rw [InstanceCall.run, hstate]
      exact h
    · exact h.of_fewer hsame.made.ge fun ctx name i hi ↦ (hsame.instance? ctx name) ▸ hi
    · exact h.of_made hmade
  | remove ctx' name' =>
    refine h.of_fewer le_rfl fun ctx name i hi ↦ ?_
    rw [InstanceCall.run, instance?_removeInstance] at hi
    split at hi
    · cases hi
    · exact hi
  | edit d => exact h.of_fewer le_rfl fun ctx name i hi ↦ hi

theorem Tidy.called (h : l.Tidy) (calls : List InstanceCall) : (l.called calls).Tidy := by
  induction calls generalizing l with
  | nil => exact h
  | cons call rest ih => exact ih (h.run call)

/-- What a call does to one place: an instance that is not removed stays in it, and what
comes into it has a new number. -/
theorem place_run (call : InstanceCall) (l : Loader) (ctx : BuildContext) (name : String) :
    l.made ≤ (call.run l).made ∧
      (∀ i, l.instance? ctx name = some i → ¬ call.Removes ctx name →
        (call.run l).instance? ctx name = some i) ∧
      ∀ i, (call.run l).instance? ctx name = some i →
        l.instance? ctx name = some i ∧ ¬ call.Removes ctx name ∨ l.made ≤ i.serial := by
  cases call with
  | ensure q =>
    have hensures : ¬ (InstanceCall.ensure q).Removes ctx name := id
    rcases ensured_cases q l with
      ⟨i, -, -, hstate⟩ | ⟨hfree, ⟨e, -, hsame⟩ | ⟨i, -, hname, hmade⟩⟩
    · rw [InstanceCall.run, hstate]
      exact ⟨le_rfl, fun j hj _ ↦ hj, fun j hj ↦ Or.inl ⟨hj, hensures⟩⟩
    · have hplace := hsame.instance? ctx name
      exact ⟨hsame.made.ge, fun j hj _ ↦ hplace.trans hj,
        fun j hj ↦ Or.inl ⟨hplace ▸ hj, hensures⟩⟩
    · refine ⟨hmade.made ▸ Nat.le_succ _, fun j hj _ ↦ ?_, fun j hj ↦ ?_⟩
      · refine (hmade.puts.others ctx name ?_).trans hj
        by_contra hplace
        rw [not_or, not_not, not_not] at hplace
        rw [instance?_of_tree hplace.1, hplace.2, hname, hfree] at hj
        cases hj
      · rcases hmade.puts.instance? ctx name with ⟨-, -, hself⟩ | hsame
        · obtain rfl := Option.some.inj (hself.symm.trans hj)
          exact Or.inr hmade.serial.ge
        · exact Or.inl ⟨hsame ▸ hj, hensures⟩
  | remove ctx' name' =>
    rw [InstanceCall.run, instance?_removeInstance]
    refine ⟨le_rfl, fun i hi hkept ↦ (if_neg hkept).trans hi, fun i hi ↦ ?_⟩
    split at hi
    · cases hi
    · rename_i hkept
      exact Or.inl ⟨hi, hkept⟩
  | edit d => exact ⟨le_rfl, fun i hi _ ↦ hi, fun i hi ↦ Or.inl ⟨hi, id⟩⟩

theorem kept_called {calls : List InstanceCall} (hi : l.instance? ctx name = some i)
    (hkept : ∀ call ∈ calls, ¬ call.Removes ctx name) :
    (l.called calls).instance? ctx name = some i := by
  induction calls generalizing l with
  | nil => exact hi
  | cons call rest ih =>
    obtain ⟨hcall, hrest⟩ := List.forall_mem_cons.1 hkept
    exact ih ((place_run call l ctx name).2.1 i hi hcall) hrest

/-- What is in a place after some calls has been there all the time, or has been made by
one of them. -/
theorem found_called {calls : List InstanceCall} (hi : (l.called calls).instance? ctx name = some i) :
    l.instance? ctx name = some i ∧ (∀ call ∈ calls, ¬ call.Removes ctx name) ∨
      l.made ≤ i.serial := by
  induction calls generalizing l with
  | nil => exact Or.inl ⟨hi, by simp⟩
  | cons call rest ih =>
    obtain ⟨hmade, -, hfound⟩ := place_run call l ctx name
    rcases ih hi with ⟨hstill, hrest⟩ | hnew
    · exact (hfound i hstill).imp_left fun ⟨hold, hcall⟩ ↦
        ⟨hold, List.forall_mem_cons.2 ⟨hcall, hrest⟩⟩
    · exact Or.inr (hmade.trans hnew)

theorem sorted_instances (h : l.Named) (ctx : BuildContext) :
    (l.instances ctx).Pairwise fun i j ↦ i.name < j.name := by
  rw [instances, List.pairwise_map]
  have hname : ∀ p ∈ (l.instancesOf ctx).toList, p.2.name = p.1 := fun p hp ↦
    h ctx p.1 p.2 (Std.ExtTreeMap.mem_toList_iff_getElem?_eq_some.1 hp)
  refine (Std.ExtTreeMap.ordered_keys_toList (t := l.instancesOf ctx)).imp_of_mem
    fun {p q} hp hq hlt ↦ ?_
  rw [hname p hp, hname q hq]
  exact Batteries.compareOfLessAndEq_eq_lt.1 hlt

theorem ensured (q : InstanceRequest) (h : (q.run l).result = .ok i) :
    (q.run l).state.instance? q.context q.name = some i := by
  rcases ensured_cases q l with
    ⟨j, hfound, hok, hstate⟩ | ⟨-, ⟨e, herror, -⟩ | ⟨j, hok, hname, hmade⟩⟩
  · obtain rfl := Except.ok.inj (hok.symm.trans h)
    rw [hstate]
    exact hfound
  · rw [herror] at h
    cases h
  · obtain rfl := Except.ok.inj (hok.symm.trans h)
    exact hname ▸ hmade.puts.self

/-- A tree of builds has one instance for each name. All its builds see the same ones,
in the order of their names; a request that fails changes none of them; and two requests
are given the same instance just if they are for the same name in the same tree and
nothing has removed it in between. -/
theorem one_instance_per_name (d : Disk) (before between : List InstanceCall)
    (q r : InstanceRequest) :
    let l := called { disk := d } before
    let l' := (q.run l).state.called between
    (∀ ctx, l.instancesOf ctx = l.own ctx.root ∧
      (∀ ctx', ctx'.root = ctx.root → l.instances ctx' = l.instances ctx) ∧
      (l.instances ctx).Pairwise (fun i j ↦ i.name < j.name) ∧
      (∀ name i, l.instance? ctx name = some i → i.name = name) ∧
      ∀ i, i ∈ l.instances ctx ↔ l.instance? ctx i.name = some i) ∧
    (∀ e, (q.run l).result = .error e → (q.run l).state.trees = l.trees) ∧
    (∀ i, (q.run l).result = .ok i → (q.run l).state.instance? q.context q.name = some i) ∧
    ∀ i j, (q.run l).result = .ok i → (r.run l').result = .ok j →
      (j = i ↔ r.context.tree = q.context.tree ∧ r.name = q.name ∧
        ∀ call ∈ between, ¬ call.Removes q.context q.name) := by
  intro l l'
  have htidy : l.Tidy := (tidy_empty d).called before
  refine ⟨fun ctx ↦ ⟨instancesOf_eq_own l ctx, fun ctx' h ↦ ?_, sorted_instances htidy.named ctx,
    htidy.named ctx, fun i ↦ ?_⟩, fun e he ↦ ?_, fun i ↦ ensured q, fun i j hi hj ↦ ?_⟩
  · rw [instances, instances, instancesOf_eq_own, instancesOf_eq_own, h]
  · refine mem_instances.trans ⟨?_, fun hi ↦ ⟨i.name, hi⟩⟩
    rintro ⟨name, hi⟩
    rwa [htidy.named ctx name i hi]
  · rcases ensured_cases q l with ⟨i, -, hok, -⟩ | ⟨-, ⟨e', -, hsame⟩ | ⟨i, hok, -⟩⟩
    · rw [hok] at he
      cases he
    · exact hsame.trees
    · rw [hok] at he
      cases he
  · have hplaced := ensured q hi
    have htidy₁ : (q.run l).state.Tidy := htidy.run (.ensure q)
    constructor
    · rintro rfl
      have hlast : ((q.run l).state.called (between ++ [.ensure r])).instance? r.context r.name =
          some j := by
        rw [called, List.foldl_append]
        exact ensured r hj
      rcases found_called hlast with ⟨hfound, hkept⟩ | hnew
      · obtain ⟨htree, hname⟩ := htidy₁.apart _ _ _ _ _ _ hplaced hfound rfl
        refine ⟨htree, hname, fun call hcall hremoves ↦ ?_⟩
        exact hkept call (List.mem_append_left _ hcall) (hname ▸ hremoves.of_tree htree)
      · exact absurd (htidy₁.numbered _ _ _ hplaced) (Nat.not_lt.2 hnew)
    · rintro ⟨htree, hname, hkept⟩
      have hfound : l'.instance? r.context r.name = some i := by
        rw [instance?_of_tree htree, hname]
        exact kept_called hplaced hkept
      rcases ensured_cases r l' with ⟨k, hk, hok, -⟩ | ⟨hfree, -⟩
      · rw [hok] at hj
        rw [hfound] at hk
        exact (Except.ok.inj hj).symm.trans (Option.some.inj hk).symm
      · rw [hfound] at hfree
        cases hfree

open Load (plainConfig Bare project_plain)

def plainRequest (ctx : BuildContext) (useCache : Bool) : InstanceRequest where
  provider := .shared World.plain.compiler
  surroundings := .plain
  context := ctx
  config := plainConfig useCache
  bundler := .null

theorem run_plainRequest (hd : Bare l.disk) (ctx : BuildContext) (useCache : Bool) :
    ∃ i, ((plainRequest ctx useCache).run l).result = .ok i := by
  have hrun : (plainRequest ctx useCache).run l =
      (ensure .plain ctx (plainConfig useCache) .null).run l := run_ensureFrom_shared ..
  have hfilter : filterFor? (setup .plain (plainConfig useCache) [] .null) =
      some { context := ⟨"/"⟩ } := rfl
  have hproject : (plainConfig useCache).project l.disk
      ((plainConfig useCache).context.getD Surroundings.plain.workingDirectory) = .ok ⟨[], none⟩ :=
    project_plain hd useCache
  obtain ⟨hmake, -⟩ := run_make_here .plain .null rfl hproject hfilter
  rw [hrun, ensure, run_get_bind]
  cases l.instance? ctx (plainConfig useCache).instanceName with
  | some i => exact ⟨i, rfl⟩
  | none => exact ⟨_, congrArg Outcome.result (run_bind_of_ok hmake _)⟩

theorem disk_run_plainRequest (ctx : BuildContext) (useCache : Bool) (l : Loader) :
    ((plainRequest ctx useCache).run l).state.disk = l.disk := by
  rcases ensured_cases (plainRequest ctx useCache) l with
    ⟨i, -, -, hstate⟩ | ⟨-, ⟨e, -, hsame⟩ | ⟨i, -, -, hmade⟩⟩
  · rw [hstate]
  · exact hsame.disk
  · exact hmade.puts.disk

/-- The main build is given the instance of its child, whatever options it has, and a new
one once that has been removed. -/
theorem shared_with_child :
    let top : BuildContext := .top 0 "main"
    let q := plainRequest (.child top "worker") true
    let r := plainRequest top false
    let l : Loader := { disk := {} }
    let l' := (q.run l).state
    ∃ i j k, (q.run l).result = .ok i ∧
      (r.run (l'.called [.remove top "other"])).result = .ok j ∧ j = i ∧
      (r.run (l'.called [.remove top "default"])).result = .ok k ∧ k ≠ i := by
  intro top q r l l'
  have hbare : Bare l.disk := by
    rw [Bare]
    decide +kernel
  have hremoved (name : String) : Bare (l'.called [.remove top name]).disk := by
    have hdisk : (l'.called [.remove top name]).disk = l.disk := disk_run_plainRequest _ true l
    rwa [hdisk]
  obtain ⟨i, hi⟩ := run_plainRequest hbare (.child top "worker") true
  obtain ⟨j, hj⟩ := run_plainRequest (hremoved "other") top false
  obtain ⟨k, hk⟩ := run_plainRequest (hremoved "default") top false
  obtain ⟨-, -, -, hother⟩ := one_instance_per_name {} [] [.remove top "other"] q r
  obtain ⟨-, -, -, hsame⟩ := one_instance_per_name {} [] [.remove top "default"] q r
  have hji : j = i := by
    refine (hother i j hi hj).2 ⟨rfl, rfl, fun call hcall hremoves ↦ ?_⟩
    obtain rfl := List.mem_singleton.1 hcall
    have hname : "other" = "default" := hremoves.2
    exact absurd hname (by decide)
  have hki : k ≠ i := fun he ↦
    ((hsame i k hi hk).1 he).2.2 _ (List.mem_singleton_self _) ⟨rfl, rfl⟩
  exact ⟨i, j, k, hi, hj, hji, hk, hki⟩

end Loader

end TypedLoader
