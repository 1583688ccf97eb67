import Mathlib.Data.List.Nodup
import Mathlib.Order.WellFounded
import TypedLoader.Proofs.Dependencies.Levels

namespace TypedLoader.DependencyGraph

open Relation (ReflTransGen)

variable {d : Dependencies} {nodes : Array Node}

def leaf (f : Edge × Bool) : Node := ⟨f.1.target, some f.1.kind, [], f.2⟩

def pending (index : Nat) : List Node → List (Nat × Path)
  | [] => []
  | n :: rest =>
    if n.expanded then (index, n.file) :: pending (index + 1) rest else pending (index + 1) rest

theorem pending_append (index : Nat) (a b : List Node) :
    pending index (a ++ b) = pending index a ++ pending (index + a.length) b := by
  induction a generalizing index with
  | nil => rfl
  | cons n a ih =>
    rw [List.cons_append, pending, pending, ih, List.length_cons, Nat.add_assoc,
      Nat.add_comm 1]
    split <;> rfl

theorem pending_eq_nil {index : Nat} {l : List Node} (h : pending index l = []) :
    ∀ n ∈ l, n.expanded = false := by
  induction l generalizing index with
  | nil => simp
  | cons n l ih =>
    rw [pending] at h
    split at h
    · cases h
    · rename_i hn
      exact List.forall_mem_cons.2 ⟨Bool.eq_false_iff.2 hn, ih h⟩

theorem pending_eq_cons {index i : Nat} {file : Path} {queue : List (Nat × Path)} {l : List Node}
    (h : pending index l = (i, file) :: queue) :
    ∃ skipped kind children back, l = skipped ++ ⟨file, kind, children, true⟩ :: back ∧
      (∀ n ∈ skipped, n.expanded = false) ∧ i = index + skipped.length ∧
      queue = pending (i + 1) back := by
  induction l generalizing index with
  | nil => cases h
  | cons n l ih =>
    obtain ⟨f, kind, children, expanded⟩ := n
    rw [pending] at h
    split at h
    · rename_i hn
      obtain ⟨hhead, rfl⟩ := List.cons.inj h
      obtain ⟨rfl, rfl⟩ := Prod.mk.inj hhead
      obtain rfl : expanded = true := hn
      exact ⟨[], kind, children, l, rfl, by simp, rfl, rfl⟩
    · rename_i hn
      obtain ⟨skipped, kind', children', back, rfl, hskipped, rfl, hqueue⟩ := ih h
      refine ⟨⟨f, kind, children, expanded⟩ :: skipped, kind', children', back, rfl,
        List.forall_mem_cons.2 ⟨Bool.eq_false_iff.2 hn, hskipped⟩, ?_, hqueue⟩
      rw [List.length_cons, Nat.add_assoc, Nat.add_comm 1]

theorem modify_length (front back : List Node) (n : Node) (f : Node → Node) :
    (front ++ n :: back).modify front.length f = front ++ f n :: back := by
  induction front with
  | nil => rfl
  | cons m front ih => exact congrArg (m :: ·) ih

theorem addChildren_eq {front back : List Node} {n : Node} (found : List (Edge × Bool))
    (h : nodes.toList = front ++ n :: back) :
    (addChildren nodes front.length found).1.toList =
        front ++ { n with children := n.children ++ List.range' nodes.size found.length } ::
          (back ++ found.map leaf) ∧
      (addChildren nodes front.length found).2 = pending nodes.size (found.map leaf) := by
  induction found generalizing nodes n back with
  | nil =>
    refine ⟨?_, rfl⟩
    rw [addChildren, h, List.length_nil, List.range'_zero, List.append_nil, List.map_nil,
      List.append_nil]
  | cons f found ih =>
    obtain ⟨e, isNew⟩ := f
    have hlist : ((nodes.push (leaf (e, isNew))).modify front.length fun m ↦
        { m with children := m.children ++ [nodes.size] }).toList =
          front ++ { n with children := n.children ++ [nodes.size] } ::
            (back ++ [leaf (e, isNew)]) := by
      rw [Array.toList_modify, Array.toList_push, h, List.append_assoc, List.cons_append,
        modify_length]
    obtain ⟨htree, hqueue⟩ := ih hlist
    have hsize : ((nodes.push (leaf (e, isNew))).modify front.length fun m ↦
        { m with children := m.children ++ [nodes.size] }).size = nodes.size + 1 := by
      rw [Array.size_modify, Array.size_push]
    rw [hsize] at htree hqueue
    rw [addChildren]
    refine ⟨htree.trans ?_, ?_⟩
    · rw [List.append_assoc, List.append_assoc]
      rfl
    · rw [List.map_cons, pending]
      exact congrArg (fun queue ↦ if isNew then (nodes.size, e.target) :: queue else queue) hqueue

theorem newTargets_eq (found : List (Edge × Bool)) : Dependencies.newTargets found =
    ((found.map fun f ↦ (f.1.target, some f.1.kind, f.2)).filter (·.2.2)).map Prod.fst := by
  induction found with
  | nil => rfl
  | cons f found ih =>
    obtain ⟨e, isNew⟩ := f
    cases isNew with
    | true => exact congrArg (e.target :: ·) ih
    | false => exact ih

theorem map_getElem?_range' {α : Type} (a b : List α) :
    ((List.range' a.length b.length).map fun c ↦ (a ++ b)[c]?) = b.map some := by
  apply List.ext_getElem?
  intro i
  rw [List.getElem?_map, List.getElem?_map]
  rcases Nat.lt_or_ge i b.length with hi | hi
  · rw [List.getElem?_range' hi, List.getElem?_eq_getElem hi, Option.map_some, Option.map_some,
      Nat.one_mul, List.getElem?_append_right (Nat.le_add_right _ _), Nat.add_sub_cancel_left,
      List.getElem?_eq_getElem hi]
  · rw [List.getElem?_eq_none (by simpa using hi), List.getElem?_eq_none hi]
    rfl

theorem length_entries (nodes : Array Node) : (entries nodes).length = nodes.size := by
  rw [entries, List.length_map, Array.length_toList]

theorem getElem?_entries (nodes : Array Node) (i : Nat) :
    (entries nodes)[i]? = nodes[i]?.map Node.entry := by
  rw [entries, List.getElem?_map, Array.getElem?_toList]

theorem children_added (nodes : Array Node) (found : List (Edge × Bool)) :
    ((List.range' nodes.size found.length).map fun c ↦
      (entries nodes ++ found.map fun f ↦ (f.1.target, some f.1.kind, f.2))[c]?.map fun t ↦
        (t.1, t.2.1)) = (found.map Prod.fst).map fun e ↦ some (e.target, some e.kind) := by
  have hnew := congrArg (List.map (Option.map fun t ↦ (t.1, t.2.1)))
    (map_getElem?_range' (entries nodes) (found.map fun f ↦ (f.1.target, some f.1.kind, f.2)))
  rw [List.map_map, List.map_map, List.map_map, List.length_map, length_entries] at hnew
  rw [List.map_map]
  exact hnew

def HasChild (nodes : Array Node) (i c : Nat) : Prop := ∃ n, nodes[i]? = some n ∧ c ∈ n.children

inductive At (nodes : Array Node) : Nat → Nat → Prop
  | root : At nodes 0 0
  | child {depth i c : Nat} (h : At nodes depth i) (hc : HasChild nodes i c) :
      At nodes (depth + 1) c

theorem At.mono {nodes' : Array Node} {depth i : Nat} (h : At nodes depth i)
    (hmono : ∀ i c, HasChild nodes i c → HasChild nodes' i c) : At nodes' depth i := by
  induction h with
  | root => exact .root
  | child _ hc ih => exact .child ih (hmono _ _ hc)

theorem hasChild_iff {i c : Nat} :
    HasChild nodes i c ↔ ∃ n, nodes.toList[i]? = some n ∧ c ∈ n.children := by
  rw [HasChild, Array.getElem?_toList]

theorem hasChild_addChildren {front back : List Node} {n : Node} (found : List (Edge × Bool))
    (h : nodes.toList = front ++ n :: back) (i c : Nat) :
    HasChild (addChildren nodes front.length found).1 i c ↔ HasChild nodes i c ∨
      i = front.length ∧ nodes.size ≤ c ∧ c < nodes.size + found.length := by
  rw [hasChild_iff, hasChild_iff, (addChildren_eq found h).1, h]
  rcases Nat.lt_trichotomy i front.length with hi | rfl | hi
  · have hne : i ≠ front.length := Nat.ne_of_lt hi
    simp only [List.getElem?_append_left hi, hne, false_and, or_false]
  · simp only [List.getElem?_append_right (Nat.le_refl _), Nat.sub_self, List.getElem?_cons_zero,
      Option.some.injEq, exists_eq_left', List.mem_append, List.mem_range'_1, true_and]
  · obtain ⟨j, rfl⟩ : ∃ j, i = front.length + (j + 1) := ⟨i - front.length - 1, by omega⟩
    have hne : front.length + (j + 1) ≠ front.length := by omega
    have hj : front.length + (j + 1) - front.length = j + 1 := by omega
    simp only [List.getElem?_append_right (Nat.le_of_lt hi), hj, List.getElem?_cons_succ, hne,
      false_and, or_false]
    rcases Nat.lt_or_ge j back.length with hlt | hge
    · rw [List.getElem?_append_left hlt]
    · rw [List.getElem?_append_right hge, List.getElem?_eq_none hge, List.getElem?_map]
      -- what is appended has no children
      constructor
      · rintro ⟨m, hm, hc⟩
        obtain ⟨f, -, rfl⟩ := Option.map_eq_some_iff.1 hm
        cases hc
      · rintro ⟨m, hm, -⟩
        cases hm

theorem size_addChildren (nodes : Array Node) (parent : Nat) (found : List (Edge × Bool)) :
    (addChildren nodes parent found).1.size = nodes.size + found.length := by
  have h := congrArg List.length (entries_addChildren nodes parent found)
  simpa [entries] using h

/-- Children that are added behind all others keep the children of all nodes in one row. -/
theorem tiles_addChildren {front back : List Node} {n : Node} (found : List (Edge × Bool))
    (h : nodes.toList = front ++ n :: back) (hn : n.children = [])
    (hback : ∀ m ∈ back, m.children = [])
    (ht : nodes.toList.flatMap Node.children = List.range' 1 (nodes.size - 1)) :
    (addChildren nodes front.length found).1.toList.flatMap Node.children =
      List.range' 1 ((addChildren nodes front.length found).1.size - 1) := by
  have hbare : back.flatMap Node.children = [] := List.flatMap_eq_nil_iff.2 hback
  have hleaves : (found.map leaf).flatMap Node.children = [] := by
    rw [List.flatMap_eq_nil_iff]
    intro m hm
    obtain ⟨f, -, rfl⟩ := List.mem_map.1 hm
    rfl
  have hsize : nodes.size = front.length + (back.length + 1) := by
    rw [← Array.length_toList, h, List.length_append, List.length_cons]
  have hfront : front.flatMap Node.children = List.range' 1 (nodes.size - 1) := by
    rw [← ht, h, List.flatMap_append, List.flatMap_cons, hn, hbare]
    simp
  rw [(addChildren_eq found h).1, size_addChildren, List.flatMap_append, List.flatMap_cons,
    List.flatMap_append, hfront, hn, hbare, hleaves]
  simp only [List.nil_append, List.append_nil]
  have hstart : nodes.size = 1 + (nodes.size - 1) := by omega
  have hsum : nodes.size + found.length - 1 = nodes.size - 1 + found.length := by omega
  rw [hsum, ← List.range'_append_1, ← hstart]

/-- The tree as far as it has grown: the keys seen, the nodes, and those of them that wait to be
expanded, oldest first. -/
structure Growth where
  seen : List String
  nodes : Array Node
  queue : List (Nat × Path)

namespace Growth

variable {s s' : Growth} {root : Path}

def start (d : Dependencies) (root : Path) : Growth :=
  ⟨[d.key root], #[⟨root, none, [], true⟩], [(0, root)]⟩

def turn (d : Dependencies) (s : Growth) (index : Nat) (file : Path) (queue : List (Nat × Path)) :
    Growth :=
  let o := d.scanEdges s.seen (d.edgesOf file)
  let next := addChildren s.nodes index o.1
  ⟨o.2, next.1, queue ++ next.2⟩

inductive Step (d : Dependencies) : Growth → Growth → Prop
  | expand {s : Growth} {index : Nat} {file : Path} {queue : List (Nat × Path)}
      (h : s.queue = (index, file) :: queue) : Step d s (s.turn d index file queue)

theorem wellFounded_step (d : Dependencies) : WellFounded fun s' s ↦ Step d s s' := by
  refine Subrelation.wf (fun {s' s} h ↦ ?_)
    (InvImage.wf (fun s : Growth ↦ (d.unseen s.seen, s.queue.length)) WellFoundedRelation.wf)
  cases h with
  | @expand index file queue h =>
    rw [InvImage, h]
    -- the step sees a new key, or it leaves fewer nodes to expand
    rcases d.unseen_scanEdges (d.key file) s.seen with hlt | ⟨hnil, heq⟩
    · exact Prod.Lex.left _ _ hlt
    · rw [turn, Dependencies.edgesOf, addChildren_eq_nil _ _ _ hnil, heq, List.append_nil]
      exact Prod.Lex.right _ (Nat.lt_add_one queue.length)

theorem steps_expand (d : Dependencies) (s : Growth) :
    ∃ seen, ReflTransGen (Step d) s ⟨seen, DependencyGraph.expand d s.seen s.nodes s.queue, []⟩ := by
  obtain ⟨seen, nodes, queue⟩ := s
  dsimp only
  fun_induction DependencyGraph.expand d seen nodes queue with
  | case1 seen nodes => exact ⟨seen, .refl⟩
  | case2 seen nodes index file queue next ih =>
    obtain ⟨seen', hsteps⟩ := ih
    exact ⟨seen', .head (.expand (s := ⟨seen, nodes, (index, file) :: queue⟩) rfl) hsteps⟩

/-- The nodes of a tree that grows. The first of them, `done`, wait no more, and their children are
the edges of their files if they are expanded. -/
structure Arena (d : Dependencies) (s : Growth) (done waiting : List Node) : Prop where
  split : s.nodes.toList = done ++ waiting
  queue : s.queue = pending done.length waiting
  bare : ∀ n ∈ waiting, n.children = []
  children : ∀ n ∈ done, (n.children.map fun c ↦ (entries s.nodes)[c]?.map fun t ↦ (t.1, t.2.1)) =
    if n.expanded then (d.edgesOf n.file).map fun e ↦ some (e.target, some e.kind) else []
  tiles : s.nodes.toList.flatMap Node.children = List.range' 1 (s.nodes.size - 1)
  later : ∀ i c, HasChild s.nodes i c → i < c

/-- The keys of a tree that grows. Those seen are the keys of the expanded nodes, in their order. -/
structure Keyed (d : Dependencies) (root : Path) (s : Growth) : Prop where
  first : (entries s.nodes).head? = some (root, none, true)
  keys : s.seen = (((entries s.nodes).filter (·.2.2)).map fun t ↦ d.key t.1).reverse
  nodup : s.seen.Nodup
  seen : ∀ t ∈ entries s.nodes, d.key t.1 ∈ s.seen
  levels : d.Levels s.seen (d.key root) (s.queue.map Prod.snd)

/-- A node that is expanded is as deep in the tree as its key is far from the root. -/
def Placed (d : Dependencies) (root : Path) (nodes : Array Node) : Prop :=
  ∀ i t, (entries nodes)[i]? = some t → t.2.2 = true →
    ∃ depth, At nodes depth i ∧ d.Distance (d.key root) depth (d.key t.1)

structure Grown (d : Dependencies) (root : Path) (s : Growth) (done waiting : List Node) : Prop
    extends Arena d s done waiting, Keyed d root s where
  placed : Placed d root s.nodes

theorem arena_start (d : Dependencies) (root : Path) :
    Arena d (start d root) [] [⟨root, none, [], true⟩] where
  split := rfl
  queue := rfl
  bare := by simp
  children := by simp
  tiles := rfl
  later i c h := by
    obtain ⟨n, hn, hc⟩ := hasChild_iff.1 h
    obtain rfl := List.mem_singleton.1 (List.mem_of_getElem? hn)
    cases hc

theorem keyed_start (d : Dependencies) (root : Path) : Keyed d root (start d root) where
  first := rfl
  keys := rfl
  nodup := List.nodup_singleton _
  seen t ht := by
    obtain rfl := List.mem_singleton.1 ht
    exact List.mem_singleton_self _
  levels := d.levels_start root

theorem grown_start (d : Dependencies) (root : Path) :
    Grown d root (start d root) [] [⟨root, none, [], true⟩] where
  toArena := arena_start d root
  toKeyed := keyed_start d root
  placed i t ht _ := by
    have hlt : i < 1 := (List.getElem?_eq_some_iff.1 ht).1
    obtain rfl : i = 0 := by omega
    obtain rfl := Option.some.inj ht
    exact ⟨0, .root, d.distance_root _⟩

section Growing

variable {done waiting : List Node} {index : Nat} {file : Path} {queue : List (Nat × Path)}

theorem Arena.lt_size (h : Arena d s done waiting) {n : Node} (hn : n ∈ s.nodes.toList)
    {c : Nat} (hc : c ∈ n.children) : c < s.nodes.size := by
  have hm : c ∈ s.nodes.toList.flatMap Node.children := List.mem_flatMap.2 ⟨n, hn, hc⟩
  rw [h.tiles, List.mem_range'_1] at hm
  omega

theorem Arena.next (h : Arena d s done waiting) (hq : s.queue = (index, file) :: queue) :
    ∃ skipped kind back, waiting = skipped ++ ⟨file, kind, [], true⟩ :: back ∧
      (∀ n ∈ skipped, n.expanded = false) ∧ index = (done ++ skipped).length ∧
      queue = pending (index + 1) back ∧
      s.nodes.toList = done ++ skipped ++ ⟨file, kind, [], true⟩ :: back := by
  obtain ⟨skipped, kind, children, back, rfl, hskipped, hindex, hqueue⟩ :=
    pending_eq_cons (h.queue.symm.trans hq)
  obtain rfl : children = [] := h.bare ⟨file, kind, children, true⟩
    (List.mem_append_right skipped List.mem_cons_self)
  refine ⟨skipped, kind, back, rfl, hskipped, ?_, hqueue, ?_⟩
  · rw [hindex, List.length_append]
  · rw [h.split, List.append_assoc]

theorem Arena.children_append (h : Arena d s done waiting) {n : Node} (hn : n ∈ s.nodes.toList)
    (more : List (Path × Option EdgeKind × Bool)) :
    (n.children.map fun c ↦ (entries s.nodes ++ more)[c]?.map fun t ↦ (t.1, t.2.1)) =
      n.children.map fun c ↦ (entries s.nodes)[c]?.map fun t ↦ (t.1, t.2.1) := by
  refine List.map_congr_left fun c hc ↦ ?_
  rw [List.getElem?_append_left]
  rw [length_entries]
  exact h.lt_size hn hc

theorem Arena.turn (h : Arena d s done waiting) (hq : s.queue = (index, file) :: queue) :
    ∃ done' waiting', Arena d (s.turn d index file queue) done' waiting' := by
  obtain ⟨skipped, kind, back, rfl, hskipped, rfl, rfl, hnodes⟩ := h.next hq
  rw [Growth.turn]
  have hfst := d.map_fst_scanEdges s.seen (d.edgesOf file)
  generalize d.scanEdges s.seen (d.edgesOf file) = o at *
  obtain ⟨htree, hadded⟩ := addChildren_eq o.1 hnodes
  have hbare := h.bare
  rw [List.forall_mem_append, List.forall_mem_cons] at hbare
  obtain ⟨hbareSkipped, -, hbareBack⟩ := hbare
  refine ⟨done ++ skipped ++ [⟨file, kind, List.range' s.nodes.size o.1.length, true⟩],
    back ++ o.1.map leaf, ?_⟩
  constructor
  case split =>
    rw [htree, List.append_assoc _ [_], List.singleton_append]
    rfl
  case queue =>
    have hsize : s.nodes.size = (done ++ skipped).length + 1 + back.length := by
      rw [← Array.length_toList, hnodes, List.length_append, List.length_cons]
      omega
    have hlength (n : Node) : (done ++ skipped ++ [n]).length = (done ++ skipped).length + 1 :=
      List.length_append
    dsimp only
    rw [hadded, pending_append, hlength, hsize]
  case bare =>
    rw [List.forall_mem_append]
    refine ⟨hbareBack, fun n hn ↦ ?_⟩
    obtain ⟨f, -, rfl⟩ := List.mem_map.1 hn
    rfl
  case children =>
    dsimp only
    simp only [List.forall_mem_append, List.forall_mem_singleton, if_true]
    rw [entries_addChildren]
    refine ⟨⟨fun n hn ↦ ?_, fun n hn ↦ ?_⟩, ?_⟩
    · have hm : n ∈ s.nodes.toList := h.split ▸ List.mem_append_left _ hn
      rw [h.children_append hm, h.children n hn]
    · rw [hbareSkipped n hn, hskipped n hn]
      rfl
    · rw [← hfst]
      exact children_added s.nodes o.1
  case tiles => exact tiles_addChildren o.1 hnodes rfl hbareBack h.tiles
  case later =>
    intro i c hc
    rcases (hasChild_addChildren o.1 hnodes i c).1 hc with hc | ⟨rfl, hle, -⟩
    · exact h.later i c hc
    · rw [← Array.length_toList, hnodes, List.length_append, List.length_cons] at hle
      omega

theorem Keyed.turn (h : Keyed d root s) (hq : s.queue = (index, file) :: queue) :
    Keyed d root (s.turn d index file queue) := by
  have hlevels := h.levels
  rw [hq] at hlevels
  have hfst := d.map_fst_scanEdges s.seen (d.edgesOf file)
  have hseen := d.mem_scanEdges s.seen (d.edgesOf file)
  have hentries := entries_addChildren s.nodes index (d.scanEdges s.seen (d.edgesOf file)).1
  rw [Growth.turn]
  constructor
  case first =>
    dsimp only
    rw [hentries, List.head?_append, h.first]
    rfl
  case keys =>
    dsimp only
    rw [hentries, d.seen_scanEdges, h.keys, List.filter_append, List.map_append,
      List.reverse_append, newTargets_eq, List.map_map]
    rfl
  case nodup => exact d.nodup_scanEdges _ _ h.nodup
  case seen =>
    intro t ht
    dsimp only at ht ⊢
    rw [hentries] at ht
    rcases List.mem_append.1 ht with ht | ht
    · exact (hseen _).2 (Or.inl (h.seen t ht))
    · obtain ⟨f, hf, rfl⟩ := List.mem_map.1 ht
      have he : f.1 ∈ d.edgesOf file := hfst ▸ List.mem_map_of_mem hf
      exact (hseen _).2 (Or.inr ⟨f.1, he, rfl⟩)
  case levels =>
    dsimp only
    rw [List.map_append, queue_addChildren]
    exact hlevels.step

theorem Grown.placed_turn (h : Grown d root s done waiting)
    (hq : s.queue = (index, file) :: queue) : Placed d root (s.turn d index file queue).nodes := by
  intro i t ht hx
  obtain ⟨skipped, kind, back, rfl, hskipped, rfl, hqueue, hnodes⟩ := h.next hq
  have hlevels := h.levels
  rw [hq] at hlevels
  have hchild := hasChild_addChildren (d.scanEdges s.seen (d.edgesOf file)).1 hnodes
  have hmono {depth i : Nat} (hi : At s.nodes depth i) :
      At (s.turn d (done ++ skipped).length file queue).nodes depth i :=
    hi.mono fun i c hc ↦ (hchild i c).2 (Or.inl hc)
  rw [turn, entries_addChildren, List.getElem?_append, length_entries] at ht
  split at ht
  · obtain ⟨depth, hat, hd⟩ := h.placed i t ht hx
    exact ⟨depth, hmono hat, hd⟩
  -- the node is new, and expanded later because its key has not been seen
  · rename_i hi
    obtain ⟨⟨e, isNew⟩, hf, rfl⟩ := Option.map_eq_some_iff.1 (List.getElem?_map.symm.trans ht)
    obtain rfl : isNew = true := hx
    have hmem := List.mem_of_getElem? hf
    obtain ⟨hlt, -⟩ := List.getElem?_eq_some_iff.1 hf
    have hparent : (entries s.nodes)[(done ++ skipped).length]? = some (file, kind, true) := by
      rw [entries, hnodes, List.map_append, List.getElem?_append_right (by rw [List.length_map]),
        List.length_map, Nat.sub_self]
      rfl
    obtain ⟨depth, hat, hd⟩ := h.placed _ _ hparent rfl
    refine ⟨depth + 1, (hmono hat).child ((hchild _ i).2 (Or.inr ⟨rfl, ?_⟩)), ?_⟩
    · omega
    · have he : e ∈ d.edgesOf file := by
        rw [← d.map_fst_scanEdges s.seen (d.edgesOf file)]
        exact List.mem_map_of_mem hmem
      exact hlevels.distance_new hd ⟨e, he, rfl⟩ (d.notMem_of_new _ _ hmem)

theorem Grown.step (h : Grown d root s done waiting) (hs : Step d s s') :
    ∃ done' waiting', Grown d root s' done' waiting' := by
  obtain ⟨hq⟩ := hs
  obtain ⟨done', waiting', harena⟩ := h.toArena.turn hq
  exact ⟨done', waiting', harena, h.toKeyed.turn hq, h.placed_turn hq⟩

end Growing

theorem Grown.steps {done waiting : List Node} (h : Grown d root s done waiting)
    (hs : ReflTransGen (Step d) s s') : ∃ done' waiting', Grown d root s' done' waiting' := by
  induction hs with
  | refl => exact ⟨done, waiting, h⟩
  | tail _ hs ih =>
    obtain ⟨done', waiting', h'⟩ := ih
    exact h'.step hs

end Growth

end TypedLoader.DependencyGraph
