import TypedLoader.Config.Project
import TypedLoader.Proofs.Disk
import TypedLoader.Proofs.Json.Objects
import TypedLoader.Proofs.Text.Utf8

namespace TypedLoader.ProjectFile

open Json (Object)

variable {d : Disk} {p q r f : Path} {file base last : ProjectFile} {e : ConfigError}
  {chain seen : List Path} {passed : List (Path × ProjectFile)}

def read (d : Disk) (p : Path) : Except ConfigError ProjectFile :=
  match d.readText p with
  | .error _ => .error (.unreadableProject p)
  | .ok source =>
    match ofText? source with
    | none => .error (.badProjectFile p)
    | some file => .ok file

def link (d : Disk) (p : Path) : Except ConfigError (ProjectFile × Option Path) :=
  (read d p).bind fun file ↦
    match file.base with
    | none => .ok (file, none)
    | some name => (findBase d p name).map fun q ↦ (file, some q)

theorem loadOver_eq (d : Disk) (seen : List Path) (p : Path) : loadOver d seen p =
    if seen.contains (canonical d p) then .error (.extendsCycle (canonical d p))
    else (link d p).bind fun (file, next) ↦
      match next with
      | none => .ok file
      | some q => (loadOver d (canonical d p :: seen) q).map file.extending := by
  rw [loadOver]
  split
  · rfl
  · split
    · rename_i hread
      rw [link, read, hread]
      rfl
    · rename_i source hread
      have hfile : read d p = match ofText? source with
          | none => .error (.badProjectFile p)
          | some file => .ok file := by
        rw [read, hread]
      rw [link, hfile]
      cases ofText? source with
      | none => rfl
      | some file =>
        dsimp only [Except.bind]
        cases file.base with
        | none => rfl
        | some name =>
          dsimp only
          cases findBase d p name <;> rfl

theorem read_of_link {next : Option Path} (h : link d p = .ok (file, next)) :
    read d p = .ok file := by
  obtain ⟨file', hread, h⟩ := bind_eq_ok h
  split at h
  · cases h
    exact hread
  · obtain ⟨q, -, hq⟩ := map_eq_ok h
    cases hq
    exact hread

theorem base_of_link (h : link d p = .ok (file, none)) : file.base = none := by
  obtain ⟨file', -, h⟩ := bind_eq_ok h
  split at h
  · rename_i hbase
    cases h
    exact hbase
  · obtain ⟨q, -, hq⟩ := map_eq_ok h
    cases hq

theorem link_of_base {name : String} (hread : read d p = .ok file) (hbase : file.base = some name)
    (hfind : findBase d p name = .ok q) : link d p = .ok (file, some q) := by
  rw [link, hread, Except.bind, hbase]
  dsimp only
  rw [hfind]
  rfl

theorem link_of_last (hread : read d p = .ok file) (hbase : file.base = none) :
    link d p = .ok (file, none) := by
  rw [link, hread, Except.bind, hbase]

theorem read_of_encode {source : String} (hlocate : d.locate p = .ok q)
    (hsource : d.at? p.normalize = some (Text.encode source)) (hfile : ofText? source = some file) :
    read d p = .ok file := by
  unfold read Disk.readText Disk.readBytes
  rw [hlocate, hsource]
  dsimp only
  rw [Text.decode?_encode]
  dsimp only
  rw [hfile]

theorem readText_of_read (h : read d p = .ok file) :
    ∃ source, d.readText p = .ok source ∧ ofText? source = some file := by
  unfold read at h
  split at h
  · cases h
  · rename_i source hsource
    split at h
    · cases h
    · rename_i file' hfile
      obtain rfl := Except.ok.inj h
      exact ⟨source, hsource, hfile⟩

theorem read_ne_cycle (d : Disk) (p f : Path) : read d p ≠ .error (.extendsCycle f) := by
  intro h
  unfold read at h
  split at h
  · cases h
  · split at h <;> cases h

theorem findBase_ne_cycle (d : Disk) (p f : Path) (name : String) :
    findBase d p name ≠ .error (.extendsCycle f) := by
  intro h
  unfold findBase at h
  split at h
  · cases h
  · extract_lets written candidate at h
    clear_value candidate
    split at h
    · cases h
    · split at h
      · cases h
      · split at h <;> cases h

theorem link_ne_cycle (d : Disk) (p f : Path) : link d p ≠ .error (.extendsCycle f) := by
  intro h
  rcases bind_eq_error h with h | ⟨file, -, h⟩
  · exact read_ne_cycle d p f h
  · split at h
    · cases h
    · exact findBase_ne_cycle d p f _ (map_eq_error h)

/-- Follows links from the file at `p`, past some files, to the path `r`. -/
inductive Follows (d : Disk) : Path → List (Path × ProjectFile) → Path → Prop
  | here (p : Path) : Follows d p [] p
  | link {p q r : Path} {file : ProjectFile} {passed : List (Path × ProjectFile)}
      (hlink : link d p = .ok (file, some q)) (hrest : Follows d q passed r) :
      Follows d p ((p, file) :: passed) r

def Back (d : Disk) (passed : List (Path × ProjectFile)) (r f : Path) : Prop :=
  d.locate r = .ok f ∧ ∃ m ∈ passed, d.locate m.1 = .ok f

def Returns (d : Disk) (p f : Path) : Prop := ∃ passed r, Follows d p passed r ∧ Back d passed r f

theorem Follows.read (h : Follows d p passed r) : ∀ m ∈ passed, read d m.1 = .ok m.2 := by
  induction h with
  | here p => exact fun m hm ↦ absurd hm List.not_mem_nil
  | link hlink _ ih => exact List.forall_mem_cons.2 ⟨read_of_link hlink, ih⟩

theorem locate_of_read (h : read d p = .ok file) : d.locate p = .ok (canonical d p) := by
  obtain ⟨source, hsource, -⟩ := readText_of_read h
  obtain ⟨q, hq⟩ := Disk.locate_of_readText hsource
  rw [canonical, hq]

theorem locate_of_canonical (h : read d q = .ok file) (hr : canonical d r = canonical d q) :
    d.locate r = .ok (canonical d q) := by
  have hq := locate_of_read h
  rw [← hr] at hq ⊢
  unfold canonical at hq ⊢
  cases hlocate : d.locate r with
  | ok place => rfl
  | error e =>
    rw [hlocate] at hq
    exact absurd (Disk.locate_of_locate hq) (by simp [hlocate])

def trail (d : Disk) (passed : List (Path × ProjectFile)) (seen : List Path) : List Path :=
  (passed.map fun m ↦ canonical d m.1).reverse ++ seen

theorem trail_cons (d : Disk) (m : Path × ProjectFile) (passed : List (Path × ProjectFile))
    (seen : List Path) : trail d (m :: passed) seen = trail d passed (canonical d m.1 :: seen) := by
  simp [trail]

theorem Follows.back_iff (h : Follows d p passed r) :
    Back d passed r f ↔ canonical d r ∈ trail d passed [] ∧ f = canonical d r := by
  simp only [Back, trail, List.append_nil, List.mem_reverse, List.mem_map]
  constructor
  · rintro ⟨hr, m, hm, hf⟩
    refine ⟨⟨m, hm, ?_⟩, ?_⟩
    · rw [canonical, hf, canonical, hr]
    · rw [canonical, hr]
  · rintro ⟨⟨m, hm, hplace⟩, rfl⟩
    have hread := h.read m hm
    rw [← hplace]
    exact ⟨locate_of_canonical hread hplace.symm, m, hm, locate_of_read hread⟩

def stacked (passed : List (Path × ProjectFile)) (base : ProjectFile) : ProjectFile :=
  passed.foldr (fun m base ↦ m.2.extending base) base

theorem map_stacked_nil (x : Except ConfigError ProjectFile) : x.map (stacked []) = x := by
  cases x <;> rfl

theorem map_stacked_cons (x : Except ConfigError ProjectFile) (m : Path × ProjectFile) :
    x.map (stacked (m :: passed)) = (x.map (stacked passed)).map m.2.extending := by
  cases x <;> rfl

theorem loadOver_of_mem (h : canonical d p ∈ seen) :
    loadOver d seen p = .error (.extendsCycle (canonical d p)) := by
  rw [loadOver_eq, if_pos (List.contains_iff_mem.2 h)]

theorem loadOver_of_link (h : canonical d p ∉ seen) (hlink : link d p = .ok (file, some q)) :
    loadOver d seen p = (loadOver d (canonical d p :: seen) q).map file.extending := by
  rw [loadOver_eq, if_neg (mt List.contains_iff_mem.1 h), hlink]
  rfl

theorem loadOver_of_last (h : canonical d p ∉ seen) (hlink : link d p = .ok (last, none)) :
    loadOver d seen p = .ok last := by
  rw [loadOver_eq, if_neg (mt List.contains_iff_mem.1 h), hlink]
  rfl

theorem loadOver_of_error (h : canonical d p ∉ seen) (hlink : link d p = .error e) :
    loadOver d seen p = .error e := by
  rw [loadOver_eq, if_neg (mt List.contains_iff_mem.1 h), hlink]
  rfl

/-- Loading follows the links, unless it finds a cycle. -/
theorem Follows.loadOver (h : Follows d p passed r) (seen : List Path) :
    (∃ f, loadOver d seen p = .error (.extendsCycle f)) ∨
      loadOver d seen p = (loadOver d (trail d passed seen) r).map (stacked passed) := by
  induction h generalizing seen with
  | here p => exact Or.inr (map_stacked_nil _).symm
  | @link p q r file passed hlink _ ih =>
    by_cases hseen : canonical d p ∈ seen
    · exact Or.inl ⟨_, loadOver_of_mem hseen⟩
    · rw [loadOver_of_link hseen hlink, trail_cons, map_stacked_cons]
      rcases ih (canonical d p :: seen) with ⟨f, hf⟩ | hrun
      · rw [hf]
        exact Or.inl ⟨f, rfl⟩
      · rw [hrun]
        exact Or.inr rfl

def Stuck (d : Disk) (seen : List Path) (r : Path) : Prop :=
  canonical d r ∈ seen ∨ (∃ e, link d r = .error e) ∨ ∃ last, link d r = .ok (last, none)

/-- What is loaded is what links lead to, and every link lowers the number of files ahead. -/
theorem exists_run (d : Disk) (seen : List Path) (p : Path) : ∃ passed r,
    Follows d p passed r ∧ passed.length ≤ ahead d seen ∧ Stuck d (trail d passed seen) r ∧
      loadOver d seen p = (loadOver d (trail d passed seen) r).map (stacked passed) := by
  induction hn : ahead d seen using Nat.strong_induction_on generalizing seen p with
  | _ n ih =>
    by_cases hstuck : Stuck d seen p
    · exact ⟨[], p, .here p, Nat.zero_le _, hstuck, (map_stacked_nil _).symm⟩
    · rw [Stuck, not_or, not_or] at hstuck
      obtain ⟨hseen, hfails, hends⟩ := hstuck
      cases hlink : link d p with
      | error e => exact absurd ⟨e, hlink⟩ hfails
      | ok next =>
        obtain ⟨file, next⟩ := next
        cases next with
        | none => exact absurd ⟨file, hlink⟩ hends
        | some q =>
          obtain ⟨source, hsource, -⟩ := readText_of_read (read_of_link hlink)
          have hlt : ahead d (canonical d p :: seen) < n := by
            rw [← hn]
            exact ahead_lt (by simpa using hseen) hsource
          obtain ⟨passed, r, hfollows, hlength, hstuck, hrun⟩ := ih _ hlt _ q rfl
          refine ⟨(p, file) :: passed, r, .link hlink hfollows, ?_, ?_, ?_⟩
          · rw [List.length_cons]
            omega
          · rwa [trail_cons]
          · rw [loadOver_of_link hseen hlink, hrun, trail_cons, map_stacked_cons]

def Keyed (file : ProjectFile) : Prop :=
  ∀ o, file.compilerOptions = some o → (o.map (·.1)).Nodup

theorem keyed_of_ofText? {source : String} (h : ofText? source = some file) : file.Keyed := by
  unfold ofText? at h
  obtain ⟨r, -, h⟩ := Option.bind_eq_some_iff.1 h
  obtain ⟨slots, hslots, h⟩ := Option.bind_eq_some_iff.1 h
  split at h
  · rename_i slot compilerOptions _ _ _
    obtain ⟨_, -, h⟩ := Option.bind_eq_some_iff.1 h
    obtain ⟨_, hoptions, h⟩ := Option.bind_eq_some_iff.1 h
    obtain ⟨_, -, h⟩ := Option.bind_eq_some_iff.1 h
    obtain ⟨_, -, h⟩ := Option.bind_eq_some_iff.1 h
    obtain ⟨_, -, h⟩ := Option.bind_eq_some_iff.1 h
    obtain rfl := Option.some.inj h
    rintro o rfl
    cases compilerOptions with
    | none => cases hoptions
    | some j =>
      cases j with
      | obj members =>
        obtain rfl := Option.some.inj (Option.some.inj hoptions)
        exact Json.Relaxed.clean_fields? hslots (.obj members) (by simp) members rfl
      | _ => cases hoptions
  · cases h

def option? (file : ProjectFile) (key : String) : Option Json :=
  (file.compilerOptions.getD []).get? key

/-- The file that some files make together: what the first of them that gives it says. -/
structure Nearest (files : List ProjectFile) (file : ProjectFile) : Prop where
  base : file.base = none
  options : ∀ key, file.option? key = files.findSome? (·.option? key)
  included : file.included = files.findSome? (·.included)
  excluded : file.excluded = files.findSome? (·.excluded)
  files : file.files = files.findSome? (·.files)

theorem nearest_last (h : last.base = none) : Nearest [last] last where
  base := h
  options key := by simp
  included := by simp
  excluded := by simp
  files := by simp

theorem option?_extending (h : file.Keyed) (base : ProjectFile) (key : String) :
    (file.extending base).option? key = (file.option? key).or (base.option? key) := by
  unfold option? extending
  cases hfile : file.compilerOptions with
  | none => cases base.compilerOptions <;> rfl
  | some o =>
    cases base.compilerOptions with
    | none => exact Option.or_none.symm
    | some b => exact Object.get?_merge b (h o hfile) key

theorem Nearest.extending {files : List ProjectFile} (h : Nearest files base) (hfile : file.Keyed) :
    Nearest (file :: files) (file.extending base) where
  base := rfl
  options key := by
    rw [option?_extending hfile, h.options, List.findSome?_cons]
    cases file.option? key <;> rfl
  included := by
    rw [ProjectFile.extending, h.included, List.findSome?_cons]
    cases file.included <;> rfl
  excluded := by
    rw [ProjectFile.extending, h.excluded, List.findSome?_cons]
    cases file.excluded <;> rfl
  files := by
    rw [ProjectFile.extending, h.files, List.findSome?_cons]
    cases file.files <;> rfl

theorem nearest_stacked (h : ∀ m ∈ passed, m.2.Keyed) (hlast : last.base = none) :
    Nearest (passed.map (·.2) ++ [last]) (stacked passed last) := by
  induction passed with
  | nil => exact nearest_last hlast
  | cons m passed ih =>
    obtain ⟨hm, hpassed⟩ := List.forall_mem_cons.1 h
    exact (ih hpassed).extending hm

theorem Follows.keyed (h : Follows d p passed r) : ∀ m ∈ passed, m.2.Keyed := by
  intro m hm
  obtain ⟨source, -, hfile⟩ := readText_of_read (h.read m hm)
  exact keyed_of_ofText? hfile

theorem returns_of_load (h : load d p = .error (.extendsCycle f)) : Returns d p f := by
  obtain ⟨passed, r, hfollows, -, hstuck, hrun⟩ := exists_run d [] p
  rw [load, hrun] at h
  have h := map_eq_error h
  by_cases hseen : canonical d r ∈ trail d passed []
  · rw [loadOver_of_mem hseen] at h
    cases h
    exact ⟨passed, r, hfollows, hfollows.back_iff.2 ⟨hseen, rfl⟩⟩
  · rcases hstuck.resolve_left hseen with ⟨e, hlink⟩ | ⟨last, hlink⟩
    · rw [loadOver_of_error hseen hlink] at h
      cases h
      exact absurd hlink (link_ne_cycle d r f)
    · rw [loadOver_of_last hseen hlink] at h
      cases h

theorem load_of_returns (h : Returns d p f) : ∃ f, load d p = .error (.extendsCycle f) := by
  obtain ⟨passed, r, hfollows, hback⟩ := h
  rcases hfollows.loadOver [] with hcycle | hrun
  · exact hcycle
  · obtain ⟨hseen, -⟩ := hfollows.back_iff.1 hback
    rw [load, hrun, loadOver_of_mem hseen]
    exact ⟨_, rfl⟩

theorem Follows.load (h : Follows d p passed r) (hacyclic : ∀ f, ¬Returns d p f) :
    canonical d r ∉ trail d passed [] ∧
      load d p = (ProjectFile.loadOver d (trail d passed []) r).map (stacked passed) := by
  refine ⟨?_, ?_⟩
  · intro hseen
    exact hacyclic _ ⟨passed, r, h, h.back_iff.2 ⟨hseen, rfl⟩⟩
  · rcases h.loadOver [] with ⟨f, hcycle⟩ | hrun
    · exact absurd (returns_of_load hcycle) (hacyclic f)
    · exact hrun

section Project

variable {c : LoaderConfig} {context : Path}

theorem project_of_error (hfile : d.isFile (context.join ⟨c.projectFile⟩) = true)
    (hload : load d (context.join ⟨c.projectFile⟩) = .error e) :
    c.project d context = .error e := by
  rw [LoaderConfig.project, if_pos hfile, hload]
  rfl

theorem project_of_load (hkeys : (c.compilerOptions.map (·.1)).Nodup)
    (hfile : d.isFile (context.join ⟨c.projectFile⟩) = true)
    (hload : load d (context.join ⟨c.projectFile⟩) = .ok file) :
    ∃ options, c.project d context = .ok ⟨options, some (context.join ⟨c.projectFile⟩)⟩ ∧
      ∀ key, options.get? key = (c.compilerOptions.get? key).or (file.option? key) := by
  refine ⟨Object.merge (file.compilerOptions.getD []) c.compilerOptions, ?_,
    Object.get?_merge _ hkeys⟩
  rw [LoaderConfig.project, if_pos hfile, hload]
  rfl

theorem project_of_missing (hkeys : (c.compilerOptions.map (·.1)).Nodup)
    (hfile : d.isFile (context.join ⟨c.projectFile⟩) = false) :
    ∃ options, c.project d context = .ok ⟨options, none⟩ ∧
      ∀ key, options.get? key = c.compilerOptions.get? key := by
  refine ⟨Object.merge [] c.compilerOptions, ?_, ?_⟩
  · rw [LoaderConfig.project, hfile]
    rfl
  · intro key
    rw [Object.get?_merge _ hkeys]
    exact Option.or_none

end Project

/-- The links from a project file lead on at most as often as there are files on the disk:
then they come back, fail or end. Loading fails with a cycle just if they come back to a file;
if they do not, it fails as they fail, and where they end every option has the value of the
nearest file that gives it. The options of a project are those of the file that is loaded, and
over them the loader's own, which are given once each. -/
theorem nearest_file_decides (d : Disk) (p : Path) :
    (∃ passed r, Follows d p passed r ∧ passed.length ≤ d.files.length ∧
      ((∃ f, Back d passed r f) ∨ (∃ e, link d r = .error e) ∨
        ∃ last, link d r = .ok (last, none))) ∧
    ((∃ f, load d p = .error (.extendsCycle f)) ↔ ∃ f, Returns d p f) ∧
    (∀ f, load d p = .error (.extendsCycle f) → Returns d p f) ∧
    ((∀ f, ¬Returns d p f) → ∀ passed r, Follows d p passed r →
      (∀ e, link d r = .error e → load d p = .error e) ∧
        ∀ last, link d r = .ok (last, none) →
          ∃ file, load d p = .ok file ∧ Nearest (passed.map (·.2) ++ [last]) file) ∧
    ∀ (c : LoaderConfig) (context : Path), context.join ⟨c.projectFile⟩ = p →
      (c.compilerOptions.map (·.1)).Nodup →
      (d.isFile p = true → ∀ e, load d p = .error e → c.project d context = .error e) ∧
      (d.isFile p = true → ∀ file, load d p = .ok file →
        ∃ options, c.project d context = .ok ⟨options, some p⟩ ∧
          ∀ key, options.get? key = (c.compilerOptions.get? key).or (file.option? key)) ∧
      (d.isFile p = false → ∃ options, c.project d context = .ok ⟨options, none⟩ ∧
        ∀ key, options.get? key = c.compilerOptions.get? key) := by
  refine ⟨?_, ⟨?_, ?_⟩, fun f ↦ returns_of_load, ?_, ?_⟩
  · obtain ⟨passed, r, hfollows, hlength, hstuck, -⟩ := exists_run d [] p
    refine ⟨passed, r, hfollows, hlength.trans (List.length_filter_le _ _), ?_⟩
    exact hstuck.imp_left fun hseen ↦ ⟨_, hfollows.back_iff.2 ⟨hseen, rfl⟩⟩
  · rintro ⟨f, hf⟩
    exact ⟨f, returns_of_load hf⟩
  · rintro ⟨f, hf⟩
    exact load_of_returns hf
  · intro hacyclic passed r hfollows
    obtain ⟨hseen, hload⟩ := hfollows.load hacyclic
    refine ⟨?_, ?_⟩
    · intro e hlink
      rw [hload, loadOver_of_error hseen hlink]
      rfl
    · intro last hlink
      refine ⟨stacked passed last, ?_, nearest_stacked hfollows.keyed (base_of_link hlink)⟩
      rw [hload, loadOver_of_last hseen hlink]
      rfl
  · rintro c context rfl hkeys
    exact ⟨fun hfile _ hload ↦ project_of_error hfile hload,
      fun hfile _ hload ↦ project_of_load hkeys hfile hload, project_of_missing hkeys⟩

def leafSource : String :=
  "\x7b'extends': './base', 'compilerOptions': \x7b'target': 'es2020'\x7d\x7d"

def baseSource : String :=
  "\x7b'compilerOptions': \x7b'target': 'es5', 'jsx': 'react'\x7d, 'include': ['lib']\x7d"

def roundSource : String := "\x7b'extends': '../p/round'\x7d"

def chainedDisk : Disk where
  files := [(⟨"/p/tsconfig.json"⟩, Text.encode leafSource),
    (⟨"/p/base.json"⟩, Text.encode baseSource), (⟨"/p/round.json"⟩, Text.encode roundSource)]
  directories := [⟨"/p"⟩]

def leafFile : ProjectFile where
  base := some "./base"
  compilerOptions := some [("target", .str "es2020")]

def baseFile : ProjectFile where
  compilerOptions := some [("target", .str "es5"), ("jsx", .str "react")]
  included := some ["lib"]

def roundFile : ProjectFile := { base := some "../p/round" }

theorem link_leaf : link chainedDisk ⟨"/p/tsconfig.json"⟩ =
    .ok (leafFile, some ⟨"/p/./base.json"⟩) := by
  have hlocate : chainedDisk.locate ⟨"/p/tsconfig.json"⟩ = .ok ⟨"/p/tsconfig.json"⟩ := by rfl
  have hfile : ofText? leafSource = some leafFile := by cbv
  have hdot : "./base".startsWith "." = true := by simp
  refine link_of_base (read_of_encode hlocate rfl hfile) rfl ?_
  rw [findBase, hdot]
  rfl

theorem link_base : link chainedDisk ⟨"/p/./base.json"⟩ = .ok (baseFile, none) := by
  have hlocate : chainedDisk.locate ⟨"/p/./base.json"⟩ = .ok ⟨"/p/base.json"⟩ := by rfl
  have hfile : ofText? baseSource = some baseFile := by cbv
  exact link_of_last (read_of_encode hlocate rfl hfile) rfl

theorem link_round : link chainedDisk ⟨"/p/round.json"⟩ =
    .ok (roundFile, some ⟨"/p/../p/round.json"⟩) := by
  have hlocate : chainedDisk.locate ⟨"/p/round.json"⟩ = .ok ⟨"/p/round.json"⟩ := by rfl
  have hfile : ofText? roundSource = some roundFile := by cbv
  have hdot : "../p/round".startsWith "." = true := by simp
  refine link_of_base (read_of_encode hlocate rfl hfile) rfl ?_
  rw [findBase, hdot]
  rfl

theorem returns_round : Returns chainedDisk ⟨"/p/round.json"⟩ ⟨"/p/round.json"⟩ :=
  ⟨_, _, .link link_round (.here _), rfl, _, List.mem_singleton_self _, rfl⟩

theorem load_leaf : load chainedDisk ⟨"/p/tsconfig.json"⟩ = .ok (leafFile.extending baseFile) := by
  rw [load, loadOver_of_link (by decide) link_leaf, loadOver_of_last (by decide) link_base]
  rfl

/-- Over a chain of two files the loader sets one option itself. -/
theorem nearest_file_decides_over_base :
    (∃ f, load chainedDisk ⟨"/p/round.json"⟩ = .error (.extendsCycle f)) ∧
    ∃ file, load chainedDisk ⟨"/p/tsconfig.json"⟩ = .ok file ∧
      file.included = some ["lib"] ∧ file.option? "target" = some (.str "es2020") ∧
      ∃ options, LoaderConfig.project { compilerOptions := [("jsx", .str "preserve")] }
          chainedDisk ⟨"/p"⟩ = .ok ⟨options, some ⟨"/p/tsconfig.json"⟩⟩ ∧
        options.get? "target" = some (.str "es2020") ∧
        options.get? "jsx" = some (.str "preserve") := by
  obtain ⟨-, hround, -⟩ := nearest_file_decides chainedDisk ⟨"/p/round.json"⟩
  obtain ⟨-, hcycle, -, hnearest, hproject⟩ :=
    nearest_file_decides chainedDisk ⟨"/p/tsconfig.json"⟩
  have hacyclic : ∀ f, ¬Returns chainedDisk ⟨"/p/tsconfig.json"⟩ f := by
    intro f hf
    obtain ⟨f, hf⟩ := hcycle.2 ⟨f, hf⟩
    rw [load_leaf] at hf
    cases hf
  obtain ⟨-, hlast⟩ := hnearest hacyclic _ _ (.link link_leaf (.here _))
  obtain ⟨file, hfile, hnear⟩ := hlast baseFile link_base
  have htarget : file.option? "target" = some (.str "es2020") := by
    rw [hnear.options]
    rfl
  have hincluded : file.included = some ["lib"] := by
    rw [hnear.included]
    rfl
  obtain ⟨-, hover, -⟩ := hproject { compilerOptions := [("jsx", .str "preserve")] } ⟨"/p"⟩
    (by decide) (by decide)
  obtain ⟨options, hoptions, hkeys⟩ := hover rfl file hfile
  refine ⟨hround.2 ⟨_, returns_round⟩, file, hfile, hincluded, htarget, options, hoptions, ?_, ?_⟩
  · rw [hkeys, htarget]
    rfl
  · rw [hkeys]
    rfl

end TypedLoader.ProjectFile
