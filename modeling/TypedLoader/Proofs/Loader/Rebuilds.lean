import TypedLoader.Loader.Watch
import TypedLoader.Proofs.Loader.Cached
import TypedLoader.Proofs.Loader.Watching

namespace TypedLoader

/-- One compilation turns into another while the rest of a session stays, if there is
one. -/
inductive Session.Turns (r : Compilation → Compilation → Prop) :
    Option Session.Started → Option Session.Started → Prop
  | missing : Turns r none none
  | there {t : Session.Started} {c : Compilation} (h : r t.compilation c) :
    Turns r (some t) (some { t with compilation := c })

namespace Session.Turns

variable {r r₁ r₂ : Compilation → Compilation → Prop} {o o₁ o₂ : Option Session.Started}

theorem refl (h : ∀ c, r c c) (o : Option Session.Started) : Turns r o o := by
  cases o with
  | none => exact .missing
  | some t => exact .there (h t.compilation)

theorem comp (h : Turns r₁ o o₁) (h' : Turns r₂ o₁ o₂)
    (hr : ∀ c c₁ c₂, r₁ c c₁ → r₂ c₁ c₂ → r c c₂) : Turns r o o₂ := by
  cases h with
  | missing =>
    cases h'
    exact .missing
  | there h =>
    cases h' with
    | there h' => exact .there (hr _ _ _ h h')

theorem isSome (h : Turns r o o₁) : o₁.isSome = o.isSome := by
  cases h <;> rfl

/-- What holds of two compilations goes on to hold when both turn into others. -/
theorem square {s : Compilation → Compilation → Prop} {o' o₁' : Option Session.Started}
    (h : Turns r o o') (hl : Turns r₁ o o₁) (hr : Turns r₂ o' o₁')
    (hs : ∀ c c' c₁ c₁', r c c' → r₁ c c₁ → r₂ c' c₁' → s c₁ c₁') : Turns s o₁ o₁' := by
  cases h with
  | missing =>
    cases hl
    cases hr
    exact .missing
  | there h =>
    cases hl with
    | there hl =>
      cases hr with
      | there hr => exact .there (hs _ _ _ _ h hl hr)

end Session.Turns

namespace Compilation

theorem Loads.append {w : World} {ms ms' : List (Path × String)} {c c₁ c₂ : Compilation}
    (h : Loads w ms c c₁) (h' : Loads w ms' c₁ c₂) : Loads w (ms ++ ms') c c₂ := by
  induction h with
  | done c => exact h'
  | built hd _ ih => exact .built hd (ih h')
  | load _ ih => exact .load (ih h')

end Compilation

namespace Instance

theorem run_filesChanged_ok (s : Surroundings) (changed : List Path) (i : Instance) :
    ((filesChanged s changed).run i).result = .ok () ∧
      i.SameSetup ((filesChanged s changed).run i).state := by
  have hsame := sameSetup_perform (forwardAll s changed) (pure ())
    { i with compilation := ((refresh s changed).run i.compilation).state }
  obtain ⟨j, calls, hperform⟩ : ∃ j calls, (perform (forwardAll s changed) (pure ())).run
      { i with compilation := ((refresh s changed).run i.compilation).state } =
        ⟨.ok (), j, calls⟩ := by
    generalize { i with compilation := ((refresh s changed).run i.compilation).state } = i'
    cases hc : i'.checker with
    | none =>
      rw [run_perform_here hc]
      exact ⟨_, _, rfl⟩
    | some client =>
      rw [run_perform_remote hc, result_forwardAll]
      exact ⟨_, _, rfl⟩
  rw [hperform] at hsame
  obtain ⟨hresult, hstate⟩ := run_filesChanged hperform
  rw [hstate]
  exact ⟨hresult, hsame.config, hsame.forked, hsame.identifier, hsame.cache⟩

end Instance

namespace Loader

variable {l : Loader} {ctx : BuildContext}

theorem forM_within (a : Instance.Act Unit) (hok : ∀ i, (a.run i).result = .ok ())
    (hname : ∀ i, (a.run i).state.name = i.name) {is : List Instance}
    (hnodup : (is.map Instance.name).Nodup) (hfound : ∀ i ∈ is, l.instance? ctx i.name = some i) :
    ∀ ctx' name, ((is.forM fun i ↦ within ctx i a : Act Unit).run l).state.instance? ctx' name =
      if ctx'.tree = ctx.tree ∧ name ∈ is.map Instance.name then
        (l.instance? ctx' name).map fun i ↦ (a.run i).state
      else l.instance? ctx' name := by
  induction is generalizing l with
  | nil => exact fun ctx' name ↦ (if_neg fun h ↦ List.not_mem_nil h.2).symm
  | cons i rest ih =>
    obtain ⟨hnew, hnodup⟩ := List.nodup_cons.1 hnodup
    obtain ⟨hi, hrest⟩ := List.forall_mem_cons.1 hfound
    have hrun := run_within hi a
    rw [hok] at hrun
    have hputs := puts_put l ctx (a.run i).state
    have hothers (ctx' : BuildContext) (name : String)
        (h : ctx'.tree ≠ ctx.tree ∨ name ≠ i.name) :
        (l.put ctx (a.run i).state).instance? ctx' name = l.instance? ctx' name :=
      hputs.others ctx' name (hname i ▸ h)
    have hnext := ih hnodup (l := l.put ctx (a.run i).state) fun j hj ↦ by
      rw [hothers ctx j.name (Or.inr fun he ↦ hnew (List.mem_map.2 ⟨j, hj, he⟩))]
      exact hrest j hj
    intro ctx' name
    rw [Action.run_forM_cons, Action.run_bind, hrun]
    refine (hnext ctx' name).trans ?_
    by_cases htree : ctx'.tree = ctx.tree
    · by_cases he : name = i.name
      · subst he
        rw [if_neg fun h ↦ hnew h.2, if_pos ⟨htree, by simp⟩, instance?_of_tree htree,
          instance?_of_tree htree, hi, ← hname i, hputs.self]
        rfl
      · rw [hothers ctx' name (Or.inr he)]
        simp only [List.map_cons, List.mem_cons, he, false_or]
    · rw [if_neg fun h ↦ htree h.1, if_neg fun h ↦ htree h.1, hothers ctx' name (Or.inl htree)]

theorem mem_instances {i : Instance} :
    i ∈ l.instances ctx ↔ ∃ name, l.instance? ctx name = some i := by
  simp only [instances, List.mem_map, Prod.exists, Std.ExtTreeMap.mem_toList_iff_getElem?_eq_some,
    instance?]
  simp

theorem nodup_instances (h : l.Named) (ctx : BuildContext) :
    ((l.instances ctx).map Instance.name).Nodup := by
  rw [instances, List.map_map, List.Nodup, List.pairwise_map]
  have hdistinct := (l.instancesOf ctx).distinct_keys_toList
  have hname : ∀ p ∈ (l.instancesOf ctx).toList, (Instance.name ∘ Prod.snd) p = p.1 := by
    intro p hp
    exact h ctx p.1 p.2 (Std.ExtTreeMap.mem_toList_iff_getElem?_eq_some.1 hp)
  refine hdistinct.imp_of_mem fun {p q} hp hq hne he ↦ hne ?_
  rw [hname p hp, hname q hq] at he
  exact Std.LawfulEqCmp.compare_eq_iff_eq.2 he

theorem instance?_beforePass (h : l.Named) (s : Surroundings) (changed : List Path)
    (ctx' : BuildContext) (name : String) :
    ((beforePass s ctx changed).run l).state.instance? ctx' name =
      if ctx'.tree = ctx.tree ∧ changed ≠ [] then
        (l.instance? ctx' name).map fun i ↦ ((Instance.filesChanged s changed).run i).state
      else l.instance? ctx' name := by
  have hrun : (beforePass s ctx changed).run l =
      (if changed.isEmpty then pure () else refreshInstances s ctx changed (l.instances ctx) :
        Act Unit).run l := rfl
  rw [hrun]
  cases changed with
  | nil => exact (if_neg fun h ↦ h.2 rfl).symm
  | cons p rest =>
    have hfound : ∀ i ∈ l.instances ctx, l.instance? ctx i.name = some i := by
      intro i hi
      obtain ⟨name, hname⟩ := mem_instances.1 hi
      rwa [h ctx name i hname]
    have hall := forM_within (Instance.filesChanged s (p :: rest))
      (fun i ↦ (Instance.run_filesChanged_ok s (p :: rest) i).1)
      (fun i ↦ (Instance.run_filesChanged_ok s (p :: rest) i).2.name) (nodup_instances h ctx) hfound
      ctx' name
    refine hall.trans ?_
    by_cases htree : ctx'.tree = ctx.tree
    · cases hplace : l.instance? ctx' name with
      | none => simp
      | some i =>
        have hmem : name ∈ (l.instances ctx).map Instance.name := by
          rw [instance?_of_tree htree] at hplace
          exact List.mem_map.2 ⟨i, mem_instances.2 ⟨name, hplace⟩, h ctx name i hplace⟩
        rw [if_pos ⟨htree, hmem⟩, if_pos ⟨htree, List.cons_ne_nil p rest⟩]
    · rw [if_neg fun h ↦ htree h.1, if_neg fun h ↦ htree h.1]

theorem disk_beforePass (s : Surroundings) (ctx : BuildContext) (changed : List Path) (l : Loader) :
    ((beforePass s ctx changed).run l).state.disk = l.disk := by
  have hwithin (i : Instance) : Action.Keeps (fun l' ↦ l'.disk = l.disk)
      (within ctx i (Instance.filesChanged s changed)) := fun _ h ↦ h
  have hall (is : List Instance) : Action.Keeps (fun l' ↦ l'.disk = l.disk)
      (refreshInstances s ctx changed is) := by
    induction is with
    | nil => exact Action.keeps_pure ()
    | cons i rest ih => exact .bind (hwithin i) fun _ ↦ ih
  refine (Action.keeps_get.bind fun l' ↦ ?_ : Action.Keeps (fun l' ↦ l'.disk = l.disk)
    (beforePass s ctx changed)) l rfl
  split
  · exact Action.keeps_pure ()
  · exact hall _

end Loader

namespace Load

def Asks (x : Load) (ctx : BuildContext) (name : String) : Prop :=
  x.context.tree = ctx.tree ∧ x.config?.map LoaderConfig.instanceName = some name

instance (x : Load) (ctx : BuildContext) (name : String) : Decidable (x.Asks ctx name) :=
  inferInstanceAs (Decidable (_ ∧ _))

def opens? (x : Load) (d : Disk) (ctx : BuildContext) (name : String) : Option Session.Started :=
  if x.Asks ctx name then
    x.config?.bind fun config ↦
      (x.parts? d config).map fun parts ↦ x.session config parts.1 parts.2
  else none

end Load

namespace Loader

variable {w : World} {home : WorkerHome} {build : Host → Except String Program} {d : Disk}
  {forked : Bool} {l : Loader} {x : Load} {ctx : BuildContext} {name : String}
  {o : Option Session.Started}

def opening? (d : Disk) (ctx : BuildContext) (name : String) (xs : List Load) :
    Option Session.Started :=
  xs.findSome? (·.opens? d ctx name)

def modules (d : Disk) (ctx : BuildContext) (name : String) :
    Bool → List Load → List (Path × String)
  | _, [] => []
  | opened, x :: xs =>
    let opened := opened || (x.opens? d ctx name).isSome
    if opened ∧ x.Asks ctx name then
      (x.file, x.request.source) :: modules d ctx name opened xs
    else modules d ctx name opened xs

variable (home build forked l ctx name) in
/-- The instance of this place, if there is one, answers as this session. -/
inductive Shows : Option Session.Started → Prop
  | missing (away : l.instance? ctx name = none) : Shows none
  | there {i : Instance} {t : Session.Started} {n : Nat} (found : l.instance? ctx name = some i)
    (mode : i.isForked = forked) (presents : i.Presents home t n)
    (orderly : t.compilation.Orderly build) : Shows (some t)

variable (home build forked l) in
/-- All instances are in the places of their names, and answer as sessions do. -/
structure Held : Prop where
  named : l.Named
  shows : ∀ ctx name, ∃ o, l.Shows home build forked ctx name o

theorem Shows.of_eq {l' : Loader} (h : l.Shows home build forked ctx name o)
    (he : l'.instance? ctx name = l.instance? ctx name) :
    l'.Shows home build forked ctx name o := by
  cases h with
  | missing hnone => exact .missing (he.trans hnone)
  | there hfound hmode ht ho => exact .there (he.trans hfound) hmode ht ho

section Loading

variable (hx : x.Runs w home d l) (hbuild : w.compiler.build = build)
  (hmode : ∀ config, x.config? = some config → config.forkChecker = forked)

include hx hmode in
theorem Shows.asked (hs : l.Shows home build forked ctx name o) (hl : l.Named)
    (hask : x.Asks ctx name) :
    match o.or (x.opens? d ctx name) with
    | none => x.instance? l = none
    | some t => ∃ i n, x.instance? l = some i ∧ i.name = name ∧ i.isForked = forked ∧
        i.Presents home t n ∧ t.compilation.Orderly build := by
  obtain ⟨htree, hname⟩ := id hask
  obtain ⟨config, hconfig, rfl⟩ := Option.map_eq_some_iff.1 hname
  have hplace := instance?_of_tree htree l config.instanceName
  have hasked : x.instance? l = ((Loader.ensure x.surroundings x.context config
      x.request.options).run l).result.toOption := by
    rw [Load.instance?, hconfig, Option.bind_some]
  have hrun := hx.run_ensure hconfig
  rw [hasked]
  cases hs with
  | missing hnone =>
    rcases hrun with ⟨i, hfound, -⟩ | ⟨-, hmade⟩
    · rw [hplace, hnone] at hfound
      cases hfound
    rw [Option.none_or, Load.opens?, if_pos hask, hconfig, Option.bind_some]
    cases hparts : x.parts? d config with
    | none =>
      rw [hparts] at hmade
      obtain ⟨⟨e, he⟩, -⟩ := hmade
      rw [he]
      rfl
    | some parts =>
      rw [hparts] at hmade
      obtain ⟨checker, hchecker, hok, hpresents, -⟩ := hmade
      rw [hok]
      exact ⟨_, _, rfl, rfl, hchecker.trans (hmode config hconfig), hpresents,
        Compilation.orderly_make _ _ _⟩
  | @there i t _ hfound hforked ht ho =>
    rcases hrun with ⟨j, hj, hok, -⟩ | ⟨hnone, -⟩
    · rw [hplace, hfound] at hj
      obtain rfl := Option.some.inj hj
      rw [hok]
      exact ⟨i, _, rfl, hl _ _ _ hfound, hforked, ht, ho⟩
    · rw [hplace, hfound] at hnone
      cases hnone

include hx hbuild hmode

theorem Held.places (h : l.Held home build forked) :
    (∀ ctx name, (x.run l).state.instance? ctx name = l.instance? ctx name) ∨
    ∃ j l₁, x.Asks x.context j.name ∧ Puts l x.context j l₁ ∧
      ∀ ctx name, (x.run l).state.instance? ctx name = l₁.instance? ctx name := by
  cases hi : x.instance? l with
  | none => exact Or.inl (hx.failed hi).2.instance?
  | some i =>
    obtain ⟨config, hconfig, -⟩ := Option.bind_eq_some_iff.1 hi
    have hask : x.Asks x.context config.instanceName := ⟨rfl, by rw [hconfig]; rfl⟩
    obtain ⟨o, hs⟩ := h.shows x.context config.instanceName
    have hasked := hs.asked hx hmode h.named hask
    cases ht : o.or (x.opens? d x.context config.instanceName) with
    | none =>
      rw [ht, hi] at hasked
      cases hasked
    | some t =>
      rw [ht] at hasked
      obtain ⟨i', n, hi', hname, -, hpresents, horderly⟩ := hasked
      obtain ⟨j, c, l₁, hsame, -, -, hputs, hl₁⟩ :=
        takes_of_run hx h.named hi' hpresents (hbuild ▸ horderly)
      exact Or.inr ⟨j, l₁, (hsame.name.trans hname) ▸ hask, hputs, hl₁⟩

theorem Held.shows_run (h : l.Held home build forked)
    (hs : l.Shows home build forked ctx name o) :
    ∃ o', (x.run l).state.Shows home build forked ctx name o' ∧
      Session.Turns (Compilation.Loads w (modules d ctx name o.isSome [x]))
        (o.or (x.opens? d ctx name)) o' := by
  by_cases hask : x.Asks ctx name
  · have hasked := hs.asked hx hmode h.named hask
    cases ht : o.or (x.opens? d ctx name) with
    | none =>
      obtain ⟨rfl, -⟩ := Option.or_eq_none_iff.1 ht
      rw [ht] at hasked
      cases hs with
      | missing hnone =>
        exact ⟨none, .missing (((hx.failed hasked).2.instance? ctx name).trans hnone), .missing⟩
    | some t =>
      rw [ht] at hasked
      obtain ⟨i, n, hi, hname, hforked, hpresents, horderly⟩ := hasked
      obtain ⟨j, c, l₁, hsame, hnext, htook, hputs, hl₁⟩ :=
        takes_of_run hx h.named hi hpresents (hbuild ▸ horderly)
      have hself : l₁.instance? ctx name = some j := by
        rw [← instance?_of_tree hask.1, ← hname, ← hsame.name]
        exact hputs.self
      have hopened : (o.isSome || (x.opens? d ctx name).isSome) = true := by
        rw [← Option.isSome_or, ht]
        rfl
      have hmodules : modules d ctx name o.isSome [x] = [(x.file, x.request.source)] := by
        rw [modules, hopened, if_pos ⟨rfl, hask⟩, modules]
      refine ⟨some { t with compilation := c }, .there ((hl₁ ctx name).trans hself)
        (hsame.forked.trans hforked) hnext (hbuild ▸ htook.orderly), .there ?_⟩
      rw [hmodules]
      exact .load (.built htook.same (.done c))
  · have hopens : x.opens? d ctx name = none := if_neg hask
    have hmodules : modules d ctx name o.isSome [x] = [] := by
      rw [modules]
      exact if_neg fun h ↦ hask h.2
    rw [hopens, Option.or_none, hmodules]
    refine ⟨o, hs.of_eq ?_, .refl .done o⟩
    rcases h.places hx hbuild hmode with hsame | ⟨j, l₁, hplace, hputs, hl₁⟩
    · exact hsame ctx name
    · refine (hl₁ ctx name).trans (hputs.others ctx name ?_)
      rw [← not_and_or]
      rintro ⟨htree, rfl⟩
      exact hask ⟨htree.symm, hplace.2⟩

theorem Held.run (h : l.Held home build forked) : (x.run l).state.Held home build forked where
  named := by
    intro ctx name i hi
    rcases h.places hx hbuild hmode with hsame | ⟨j, l₁, -, hputs, hl₁⟩
    · exact h.named ctx name i (hsame ctx name ▸ hi)
    · exact h.named.puts hputs ctx name i (hl₁ ctx name ▸ hi)
  shows ctx name := by
    obtain ⟨o, hs⟩ := h.shows ctx name
    obtain ⟨o', hs', -⟩ := h.shows_run hx hbuild hmode hs
    exact ⟨o', hs'⟩

end Loading

theorem opening?_cons (d : Disk) (ctx : BuildContext) (name : String) (x : Load) (xs : List Load) :
    opening? d ctx name (x :: xs) = (x.opens? d ctx name).or (opening? d ctx name xs) := by
  rw [opening?, List.findSome?_cons]
  cases x.opens? d ctx name <;> rfl

theorem modules_cons (d : Disk) (ctx : BuildContext) (name : String) (opened : Bool) (x : Load)
    (xs : List Load) : modules d ctx name opened (x :: xs) =
      modules d ctx name opened [x] ++
        modules d ctx name (opened || (x.opens? d ctx name).isSome) xs := by
  rw [modules, modules]
  split <;> rfl

theorem mem_modules {m : Path × String} {xs : List Load} {opened : Bool}
    (h : m ∈ modules d ctx name opened xs) : ∃ x ∈ xs, m = (x.file, x.request.source) := by
  induction xs generalizing opened with
  | nil => exact absurd h List.not_mem_nil
  | cons x xs ih =>
    rw [modules] at h
    split at h
    · rcases List.mem_cons.1 h with rfl | h
      · exact ⟨x, List.mem_cons_self, rfl⟩
      · exact (ih h).imp fun _ hx ↦ ⟨List.mem_cons_of_mem x hx.1, hx.2⟩
    · exact (ih h).imp fun _ hx ↦ ⟨List.mem_cons_of_mem x hx.1, hx.2⟩

theorem Held.shows_after {xs : List Load} (h : l.Held home build forked)
    (hs : l.Shows home build forked ctx name o) (hxs : Runs w home d l xs)
    (hbuild : w.compiler.build = build)
    (hmode : ∀ x ∈ xs, ∀ config, x.config? = some config → config.forkChecker = forked) :
    (l.after xs).Held home build forked ∧ ∃ o',
      (l.after xs).Shows home build forked ctx name o' ∧
      Session.Turns (Compilation.Loads w (modules d ctx name o.isSome xs))
        (o.or (opening? d ctx name xs)) o' := by
  induction xs generalizing l o with
  | nil =>
    refine ⟨h, o, hs, ?_⟩
    rw [opening?, List.findSome?_nil, Option.or_none]
    exact .refl .done o
  | cons x xs ih =>
    obtain ⟨hx, hxs⟩ := hxs
    obtain ⟨hmode, hmodes⟩ := List.forall_mem_cons.1 hmode
    obtain ⟨o₁, hs₁, hturn⟩ := h.shows_run hx hbuild hmode hs
    obtain ⟨hnext, o₂, hs₂, hturns⟩ := ih (h.run hx hbuild hmode) hs₁ hxs hmodes
    refine ⟨hnext, o₂, hs₂, ?_⟩
    rw [modules_cons, opening?_cons, ← Option.or_assoc, ← Option.isSome_or, ← hturn.isSome]
    have hidle : o.or (x.opens? d ctx name) = none → modules d ctx name o.isSome [x] = [] := by
      intro hnone
      rw [modules, ← Option.isSome_or, hnone]
      rfl
    generalize modules d ctx name o.isSome [x] = ms at hturn hidle
    generalize o.or (x.opens? d ctx name) = begun at hturn hidle
    cases hturn with
    | missing =>
      rw [Option.none_or] at hturns ⊢
      rw [hidle rfl]
      exact hturns
    | there hloads =>
      rw [Option.some_or] at hturns ⊢
      exact (Session.Turns.there hloads).comp hturns fun c c₁ c₂ ↦ Compilation.Loads.append

end Loader

namespace Compilation

/-- Changed files have been taken over, and then modules have been loaded. -/
def Passed (w : World) (forked : Bool) (changed : List Path) (ms : List (Path × String))
    (c c' : Compilation) : Prop :=
  ∃ c₁, TookOver w changed c c₁ forked ∧ Loads w ms c₁ c'

end Compilation

/-- A pass of a build: before it the instances of its tree are told of changed files, and
in it modules are loaded. -/
structure Pass where
  surroundings : Surroundings
  context : BuildContext
  changed : List Path
  loads : List Load

namespace Pass

def refreshed (p : Pass) (l : Loader) : Loader :=
  ((Loader.beforePass p.surroundings p.context p.changed).run l).state

def run (p : Pass) (l : Loader) : Loader := (p.refreshed l).after p.loads

/-- The changed files that an instance of this tree is told of, if it is there. -/
def changedFor (p : Pass) (ctx : BuildContext) (opened : Bool) : List Path :=
  if p.context.tree = ctx.tree ∧ opened then p.changed else []

theorem mem_changedFor {p : Pass} {ctx : BuildContext} {opened : Bool} {q : Path}
    (h : q ∈ p.changedFor ctx opened) : q ∈ p.changed := by
  rw [changedFor] at h
  split at h
  · exact h
  · exact absurd h List.not_mem_nil

theorem changedFor_false (p : Pass) (ctx : BuildContext) : p.changedFor ctx false = [] :=
  if_neg fun h ↦ Bool.false_ne_true h.2

/-- The world stays as it is during the pass, and workers are of this program and reached
by all messages. -/
structure Runs (home : WorkerHome) (build : Host → Except String Program) (d : Disk) (l : Loader)
    (p : Pass) : Prop where
  workers : p.surroundings.workers home = p.surroundings.world
  build : p.surroundings.world.compiler.build = build
  told : ∀ name i, l.instance? p.context name = some i → i.CarriesAll home p.surroundings.world
    (p.changed.map (.told p.surroundings.world))
  loads : Loader.Runs p.surroundings.world home d (p.refreshed l) p.loads

end Pass

namespace Loader

variable {home : WorkerHome} {build : Host → Except String Program} {d : Disk} {forked : Bool}
  {l : Loader} {p : Pass} {ctx : BuildContext} {name : String} {o : Option Session.Started}

theorem Named.refreshed (h : l.Named) (p : Pass) : (p.refreshed l).Named := by
  intro ctx name i hi
  have hplace : (p.refreshed l).instance? ctx name = _ :=
    instance?_beforePass h p.surroundings p.changed ctx name
  rw [hi] at hplace
  split at hplace
  · obtain ⟨j, hj, rfl⟩ := Option.map_eq_some_iff.1 hplace.symm
    exact (Instance.run_filesChanged_ok _ _ j).2.name.trans (h ctx name j hj)
  · exact h ctx name i hplace.symm

section Passing

variable (hp : p.Runs home build d l)

include hp

theorem Held.shows_refreshed (h : l.Held home build forked)
    (hs : l.Shows home build forked ctx name o) :
    ∃ o', (p.refreshed l).Shows home build forked ctx name o' ∧
      Session.Turns (Compilation.TookOver p.surroundings.world (p.changedFor ctx o.isSome) · ·
        forked) o o' := by
  have hplace : (p.refreshed l).instance? ctx name = _ :=
    instance?_beforePass h.named p.surroundings p.changed ctx name
  cases hs with
  | missing hnone =>
    refine ⟨none, .missing ?_, .missing⟩
    rw [hplace, hnone, Option.map_none, ite_self]
  | @there i t _ hfound hforked ht ho =>
    by_cases htold : ctx.tree = p.context.tree ∧ p.changed ≠ []
    · rw [if_pos htold, hfound, Option.map_some] at hplace
      have hcarries := hp.told name i ((instance?_of_tree htold.1 l name).symm.trans hfound)
      obtain ⟨-, hsame, c, hnext, htook, horderly⟩ := ht.filesChanged hp.workers hcarries
      refine ⟨some { t with compilation := c }, .there hplace (hsame.forked.trans hforked) hnext
        (horderly build ho), .there ?_⟩
      rw [Pass.changedFor, if_pos ⟨htold.1.symm, rfl⟩]
      exact hforked ▸ htook
    · rw [if_neg htold] at hplace
      have hnone : p.changedFor ctx (some t).isSome = [] := by
        rw [Pass.changedFor]
        split
        · rename_i htree
          exact not_not.1 fun hne ↦ htold ⟨htree.1.symm, hne⟩
        · rfl
      rw [hnone]
      exact ⟨some t, .there (hplace.trans hfound) hforked ht ho,
        .refl (fun c ↦ Compilation.tookOver_nil _ c _) _⟩

theorem Held.refreshed (h : l.Held home build forked) : (p.refreshed l).Held home build forked where
  named := h.named.refreshed p
  shows ctx name := by
    obtain ⟨o, hs⟩ := h.shows ctx name
    obtain ⟨o', hs', -⟩ := h.shows_refreshed hp hs
    exact ⟨o', hs'⟩

/-- The instance of a place after a pass. -/
theorem Held.shows_pass (h : l.Held home build forked)
    (hs : l.Shows home build forked ctx name o)
    (hmode : ∀ x ∈ p.loads, ∀ config, x.config? = some config → config.forkChecker = forked) :
    (p.run l).Held home build forked ∧ ∃ o',
      (p.run l).Shows home build forked ctx name o' ∧
      Session.Turns (Compilation.Passed p.surroundings.world forked (p.changedFor ctx o.isSome)
        (modules d ctx name o.isSome p.loads)) (o.or (opening? d ctx name p.loads)) o' := by
  obtain ⟨o₁, hs₁, htook⟩ := h.shows_refreshed hp hs
  obtain ⟨hnext, o₂, hs₂, hloads⟩ :=
    (h.refreshed hp).shows_after hs₁ hp.loads hp.build hmode
  refine ⟨hnext, o₂, hs₂, ?_⟩
  cases htook with
  | missing =>
    rw [Option.isSome_none, p.changedFor_false]
    refine (Session.Turns.refl (r := fun c c' ↦ c = c') (fun _ ↦ rfl) _).comp hloads ?_
    rintro c _ c' rfl hloads
    exact ⟨c, Compilation.tookOver_nil _ c _, hloads⟩
  | there htook =>
    rw [Option.some_or] at hloads ⊢
    exact (Session.Turns.there htook).comp hloads fun c c₁ c' htook hloads ↦ ⟨c₁, htook, hloads⟩

end Passing

end Loader

end TypedLoader
