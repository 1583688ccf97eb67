import Mathlib.Logic.Relation
import TypedLoader.Checker.FileDeps

namespace TypedLoader

open Relation (ReflTransGen)

namespace Dependencies

def LeadsTo (d : Dependencies) (key key' : String) : Prop :=
  ∃ e ∈ d.edgesAt key, d.key e.target = key'

variable (d : Dependencies) (seen : List String) (edges : List Edge)

theorem mem_scanEdges (key : String) :
    key ∈ (d.scanEdges seen edges).2 ↔ key ∈ seen ∨ ∃ e ∈ edges, d.key e.target = key := by
  induction edges generalizing seen with
  | nil => simp [scanEdges]
  | cons e edges ih =>
    have hcons : (∃ e' ∈ e :: edges, d.key e'.target = key) ↔
        d.key e.target = key ∨ ∃ e' ∈ edges, d.key e'.target = key := by
      simp only [List.mem_cons, or_and_right, exists_or, exists_eq_left]
    rw [scanEdges, hcons]
    split
    · rename_i he
      simp only [ih]
      constructor
      · exact Or.imp_right Or.inr
      · rintro (h | rfl | h)
        · exact Or.inl h
        · exact Or.inl he
        · exact Or.inr h
    · simp only [ih, List.mem_cons, eq_comm (a := key), or_assoc]
      exact or_left_comm

theorem mem_scanEdges_iff_new (key : String) : key ∈ (d.scanEdges seen edges).2 ↔
    key ∈ seen ∨ ∃ e, (e, true) ∈ (d.scanEdges seen edges).1 ∧ d.key e.target = key := by
  induction edges generalizing seen with
  | nil => simp [scanEdges]
  | cons e edges ih =>
    rw [scanEdges]
    split
    · simp only [ih, List.mem_cons, Prod.mk.injEq, Bool.true_eq_false, and_false, false_or]
    · simp only [ih, List.mem_cons, Prod.mk.injEq, and_true, or_and_right, exists_or,
        exists_eq_left, eq_comm (a := key), or_assoc]
      exact or_left_comm

theorem mem_newTargets {found : List (Edge × Bool)} {p : Path} :
    p ∈ newTargets found ↔ ∃ e, (e, true) ∈ found ∧ e.target = p := by
  simp [newTargets]

theorem map_fst_scanEdges : (d.scanEdges seen edges).1.map Prod.fst = edges := by
  induction edges generalizing seen with
  | nil => rfl
  | cons e edges ih =>
    rw [scanEdges]
    split <;> exact congrArg (e :: ·) (ih _)

theorem notMem_of_new {e : Edge} (h : (e, true) ∈ (d.scanEdges seen edges).1) :
    d.key e.target ∉ seen := by
  induction edges generalizing seen with
  | nil => cases h
  | cons e' edges ih =>
    rw [scanEdges] at h
    split at h
    · rcases List.mem_cons.1 h with he | h
      · cases he
      · exact ih seen h
    · rename_i hn
      rcases List.mem_cons.1 h with he | h
      · obtain rfl := (Prod.mk.inj he).1
        exact hn
      · exact fun hs ↦ ih _ h (List.mem_cons_of_mem _ hs)

theorem seen_scanEdges : (d.scanEdges seen edges).2 =
    ((newTargets (d.scanEdges seen edges).1).map d.key).reverse ++ seen := by
  induction edges generalizing seen with
  | nil => rfl
  | cons e edges ih =>
    rw [scanEdges]
    split
    · exact ih seen
    · refine (ih _).trans ?_
      simp [newTargets]

theorem nodup_scanEdges (h : seen.Nodup) : (d.scanEdges seen edges).2.Nodup := by
  induction edges generalizing seen with
  | nil => exact h
  | cons e edges ih =>
    rw [scanEdges]
    split
    · exact ih seen h
    · rename_i hn
      exact ih _ (List.nodup_cons.2 ⟨hn, h⟩)

/-- Where a walk from `root` stands. It has reached the keys it has seen, and what these lead
to has been seen as well, except for the files that wait to be followed. -/
structure Frontier (root : String) (waiting : List Path) : Prop where
  root_mem : root ∈ seen
  reached : ∀ key ∈ seen, ReflTransGen d.LeadsTo root key
  waits : ∀ p ∈ waiting, d.key p ∈ seen
  followed : ∀ key ∈ seen,
    (∃ p ∈ waiting, d.key p = key) ∨ ∀ key', d.LeadsTo key key' → key' ∈ seen

theorem frontier_start (file : Path) : Frontier d [d.key file] (d.key file) [file] where
  root_mem := List.mem_singleton_self _
  reached key hk := List.mem_singleton.1 hk ▸ .refl
  waits p hp := by
    obtain rfl := List.mem_singleton.1 hp
    exact List.mem_singleton_self _
  followed key hk := Or.inl ⟨file, List.mem_singleton_self _, (List.mem_singleton.1 hk).symm⟩

variable {d seen} {root : String} {file : Path} {waiting rest : List Path}

/-- A file is followed, and its new targets wait with those that waited. -/
theorem Frontier.step (h : Frontier d seen root (file :: rest))
    (hw : ∀ p, p ∈ waiting ↔
      p ∈ rest ∨ p ∈ newTargets (d.scanEdges seen (d.edgesOf file)).1) :
    Frontier d (d.scanEdges seen (d.edgesOf file)).2 root waiting := by
  have hseen (key : String) : key ∈ (d.scanEdges seen (d.edgesOf file)).2 ↔
      key ∈ seen ∨ d.LeadsTo (d.key file) key := d.mem_scanEdges seen (d.edgesOf file) key
  have hnew (key : String) := d.mem_scanEdges_iff_new seen (d.edgesOf file) key
  constructor
  case root_mem => exact (hseen root).2 (Or.inl h.root_mem)
  case reached =>
    intro key hk
    rcases (hseen key).1 hk with hs | hleads
    · exact h.reached key hs
    · exact (h.reached _ (h.waits file List.mem_cons_self)).tail hleads
  case waits =>
    intro p hp
    rcases (hw p).1 hp with hp | hp
    · exact (hseen _).2 (Or.inl (h.waits p (List.mem_cons_of_mem file hp)))
    · obtain ⟨e, he, rfl⟩ := mem_newTargets.1 hp
      exact (hnew _).2 (Or.inr ⟨e, he, rfl⟩)
  case followed =>
    intro key hk
    rcases (hnew key).1 hk with hs | ⟨e, he, hke⟩
    · rcases h.followed key hs with ⟨p, hp, rfl⟩ | hall
      · rcases List.mem_cons.1 hp with rfl | hp
        · exact Or.inr fun key' hleads ↦ (hseen key').2 (Or.inr hleads)
        · exact Or.inl ⟨p, (hw p).2 (Or.inl hp), rfl⟩
      · exact Or.inr fun key' hleads ↦ (hseen key').2 (Or.inl (hall key' hleads))
    · exact Or.inl ⟨e.target, (hw _).2 (Or.inr (mem_newTargets.2 ⟨e, he, rfl⟩)), hke⟩

theorem Frontier.mem_iff (h : Frontier d seen root []) (key : String) :
    key ∈ seen ↔ ReflTransGen d.LeadsTo root key := by
  refine ⟨h.reached key, fun hr ↦ ?_⟩
  induction hr with
  | refl => exact h.root_mem
  | tail _ hleads ih =>
    rcases h.followed _ ih with ⟨p, hp, -⟩ | hall
    · cases hp
    · exact hall _ hleads

end Dependencies

namespace DependencyGraph

def Node.entry (n : Node) : Path × Option EdgeKind × Bool := (n.file, n.kind, n.expanded)

def entries (nodes : Array Node) : List (Path × Option EdgeKind × Bool) :=
  nodes.toList.map Node.entry

theorem entries_modify (nodes : Array Node) (i : Nat) (f : Node → Node)
    (hf : ∀ n, (f n).entry = n.entry) : entries (nodes.modify i f) = entries nodes := by
  rw [entries, entries, Array.toList_modify]
  apply List.ext_getElem?
  intro k
  rw [List.getElem?_map, List.getElem?_map, List.getElem?_modify]
  cases nodes.toList[k]? with
  | none => rfl
  | some n =>
    by_cases h : i = k
    · simp [h, hf]
    · simp [h]

theorem entries_addChildren (nodes : Array Node) (parent : Nat) (found : List (Edge × Bool)) :
    entries (addChildren nodes parent found).1 =
      entries nodes ++ found.map fun f ↦ (f.1.target, some f.1.kind, f.2) := by
  induction found generalizing nodes with
  | nil => exact (List.append_nil _).symm
  | cons f found ih =>
    obtain ⟨e, isNew⟩ := f
    have hlink := entries_modify (nodes.push ⟨e.target, some e.kind, [], isNew⟩) parent
      (fun n ↦ { n with children := n.children ++ [nodes.size] }) fun _ ↦ rfl
    rw [addChildren]
    simp only [ih]
    rw [hlink, entries, Array.toList_push, List.map_append, List.append_assoc]
    rfl

theorem queue_addChildren (nodes : Array Node) (parent : Nat) (found : List (Edge × Bool)) :
    (addChildren nodes parent found).2.map Prod.snd = Dependencies.newTargets found := by
  induction found generalizing nodes with
  | nil => rfl
  | cons f found ih =>
    obtain ⟨e, isNew⟩ := f
    rw [addChildren]
    cases isNew with
    | true => exact congrArg (e.target :: ·) (ih _)
    | false => exact ih _

def Lists (d : Dependencies) (entries : List (Path × Option EdgeKind × Bool)) (key : String) :
    Prop :=
  ∃ p kind, (p, some kind, true) ∈ entries ∧ d.key p = key

theorem lists_append (d : Dependencies) (a b : List (Path × Option EdgeKind × Bool))
    (key : String) : Lists d (a ++ b) key ↔ Lists d a key ∨ Lists d b key := by
  simp only [Lists, List.mem_append, or_and_right, exists_or]

theorem lists_found (d : Dependencies) (found : List (Edge × Bool)) (key : String) :
    Lists d (found.map fun f ↦ (f.1.target, some f.1.kind, f.2)) key ↔
      ∃ e, (e, true) ∈ found ∧ d.key e.target = key := by
  constructor
  · rintro ⟨p, kind, hm, hk⟩
    obtain ⟨⟨e, isNew⟩, he, hentry⟩ := List.mem_map.1 hm
    obtain ⟨rfl, -, rfl⟩ : e.target = p ∧ some e.kind = some kind ∧ isNew = true := by
      simpa using hentry
    exact ⟨e, he, hk⟩
  · rintro ⟨e, he, hk⟩
    exact ⟨e.target, e.kind, List.mem_map.2 ⟨(e, true), he, rfl⟩, hk⟩

/-- While the tree of a file grows, the keys seen are its own and those listed.
All of them are reached from it, and what they lead to has been seen or waits. -/
structure Grows (d : Dependencies) (root : String) (seen : List String)
    (entries : List (Path × Option EdgeKind × Bool)) (queue : List Path) : Prop where
  listed : ∀ key, key ∈ seen ↔ key = root ∨ Lists d entries key
  reached : ∀ key ∈ seen, ReflTransGen d.LeadsTo root key
  queued : ∀ p ∈ queue, d.key p ∈ seen
  followed : ∀ key ∈ seen,
    (∃ p ∈ queue, d.key p = key) ∨ ∀ key', d.LeadsTo key key' → key' ∈ seen

theorem Grows.frontier {d : Dependencies} {root : String} {seen : List String}
    {entries : List (Path × Option EdgeKind × Bool)} {queue : List Path}
    (h : Grows d root seen entries queue) : d.Frontier seen root queue :=
  ⟨(h.listed root).2 (Or.inl rfl), h.reached, h.queued, h.followed⟩

theorem Grows.step {d : Dependencies} {root : String} {seen : List String}
    {entries : List (Path × Option EdgeKind × Bool)} {file : Path} {queue : List Path}
    (h : Grows d root seen entries (file :: queue)) :
    let o := d.scanEdges seen (d.edgesOf file)
    Grows d root o.2 (entries ++ o.1.map fun f ↦ (f.1.target, some f.1.kind, f.2))
      (queue ++ Dependencies.newTargets o.1) := by
  intro o
  have hnext : d.Frontier o.2 root (queue ++ Dependencies.newTargets o.1) :=
    h.frontier.step fun p ↦ List.mem_append
  refine ⟨fun key ↦ ?_, hnext.reached, hnext.waits, hnext.followed⟩
  rw [d.mem_scanEdges_iff_new seen (d.edgesOf file), h.listed, lists_append, lists_found, or_assoc]

theorem lists_expand {d : Dependencies} {root : String} {seen : List String} {nodes : Array Node}
    {queue : List (Nat × Path)} (h : Grows d root seen (entries nodes) (queue.map Prod.snd))
    (key : String) : key = root ∨ Lists d (entries (expand d seen nodes queue)) key ↔
      ReflTransGen d.LeadsTo root key := by
  fun_induction expand d seen nodes queue with
  | case1 seen nodes =>
    rw [← h.listed]
    exact h.frontier.mem_iff key
  | case2 seen nodes index file queue next ih =>
    apply ih
    rw [entries_addChildren, List.map_append, queue_addChildren]
    exact h.step

end DependencyGraph

namespace FileDeps

theorem mem_all_collect (d : Dependencies) (file p : Path) : p ∈ (collect d file).all ↔
    ∃ kind, (p, some kind, true) ∈ DependencyGraph.entries (d.graph file).nodes := by
  simp only [all, collect, List.mem_append, List.mem_filterMap, List.mem_filter,
    DependencyGraph.entries, List.mem_map, DependencyGraph.Node.entry, Prod.mk.injEq]
  constructor
  · rintro (⟨n, ⟨hn, hx⟩, hp⟩ | ⟨n, ⟨hn, hx⟩, hp⟩)
    · split at hp
      · rename_i hk
        obtain rfl := Option.some.inj hp
        rcases hk with hk | hk
        · exact ⟨.source, n, hn, rfl, hk, hx⟩
        · exact ⟨.declaration, n, hn, rfl, hk, hx⟩
      · cases hp
    · split at hp
      · rename_i hk
        exact ⟨.typeReference, n, hn, Option.some.inj hp, hk, hx⟩
      · cases hp
  · rintro ⟨kind, n, hn, rfl, hk, hx⟩
    cases kind with
    | source => exact Or.inl ⟨n, ⟨hn, hx⟩, if_pos (Or.inl hk)⟩
    | declaration => exact Or.inl ⟨n, ⟨hn, hx⟩, if_pos (Or.inr hk)⟩
    | typeReference => exact Or.inr ⟨n, ⟨hn, hx⟩, if_pos hk⟩

theorem mem_collect (d : Dependencies) (file : Path) (key : String) :
    (key = d.key file ∨ ∃ p ∈ (collect d file).all, d.key p = key) ↔
      ReflTransGen d.LeadsTo (d.key file) key := by
  have hlists : (∃ p ∈ (collect d file).all, d.key p = key) ↔
      DependencyGraph.Lists d (DependencyGraph.entries (d.graph file).nodes) key := by
    simp only [mem_all_collect, DependencyGraph.Lists]
    constructor
    · rintro ⟨p, ⟨kind, hm⟩, hk⟩
      exact ⟨p, kind, hm, hk⟩
    · rintro ⟨p, kind, hm, hk⟩
      exact ⟨p, ⟨kind, hm⟩, hk⟩
  rw [hlists]
  have hstart := d.frontier_start file
  have hgrows : DependencyGraph.Grows d (d.key file) [d.key file]
      (DependencyGraph.entries #[⟨file, none, [], true⟩]) [file] := by
    refine ⟨fun key ↦ ?_, hstart.reached, hstart.waits, hstart.followed⟩
    have hnone : ¬DependencyGraph.Lists d
        (DependencyGraph.entries #[⟨file, none, [], true⟩]) key := by
      rintro ⟨p, kind, hm, -⟩
      cases List.mem_singleton.1 hm
    rw [List.mem_singleton, or_iff_left hnone]
  exact DependencyGraph.lists_expand hgrows key

end FileDeps

end TypedLoader
