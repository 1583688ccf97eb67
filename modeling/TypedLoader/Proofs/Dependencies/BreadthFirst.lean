import TypedLoader.Proofs.Dependencies.Tree

namespace TypedLoader.DependencyGraph

open Relation (ReflTransGen)

variable {d : Dependencies} {root : Path} {nodes : Array Node}

/-- Every node but the first is a child of one node, which comes before it. -/
structure IsTree (nodes : Array Node) : Prop where
  nonempty : 0 < nodes.size
  parent : ∀ c, 0 < c → c < nodes.size → ∃! i, HasChild nodes i c
  once : ∀ n ∈ nodes, n.children.Nodup
  later : ∀ i c, HasChild nodes i c → i < c ∧ c < nodes.size

theorem IsTree.parent_unique (h : IsTree nodes) {i j c : Nat} (hi : HasChild nodes i c)
    (hj : HasChild nodes j c) : i = j :=
  have ⟨hlt, hc⟩ := h.later i c hi
  (h.parent c (Nat.zero_lt_of_lt hlt) hc).unique hi hj

theorem IsTree.depth_unique (h : IsTree nodes) {m n i : Nat} (hm : At nodes m i)
    (hn : At nodes n i) : m = n := by
  induction hm generalizing n with
  | root =>
    cases hn with
    | root => rfl
    | child _ hc => exact absurd (h.later _ _ hc).1 (Nat.not_lt_zero _)
  | child _ hc ih =>
    cases hn with
    | root => exact absurd (h.later _ _ hc).1 (Nat.not_lt_zero _)
    | child hj hc' =>
      obtain rfl := h.parent_unique hc hc'
      exact congrArg (· + 1) (ih hj)

def Expanded (d : Dependencies) (nodes : Array Node) (key : String) (i : Nat) : Prop :=
  ∃ n, nodes[i]? = some n ∧ n.expanded = true ∧ d.key n.file = key

/-- The tree follows the edges of the files, and expands a key where it is nearest. -/
structure BreadthFirst (d : Dependencies) (root : Path) (nodes : Array Node) : Prop
    extends IsTree nodes where
  first : ∃ children, nodes[0]? = some ⟨root, none, children, true⟩
  edges : ∀ n ∈ nodes, n.expanded = true →
    (n.children.map fun c ↦ nodes[c]?.map fun m ↦ (m.file, m.kind)) =
      (d.edgesOf n.file).map fun e ↦ some (e.target, some e.kind)
  leaves : ∀ n ∈ nodes, n.expanded = false → n.children = []
  reached : ∀ key, ReflTransGen d.LeadsTo (d.key root) key ↔ ∃! i, Expanded d nodes key i
  nearest : ∀ i n, nodes[i]? = some n → n.expanded = true →
    ∀ depth, At nodes depth i ↔ d.Distance (d.key root) depth (d.key n.file)
  repeated : ∀ n ∈ nodes, n.expanded = false →
    ∃ m ∈ nodes, m.expanded = true ∧ d.key m.file = d.key n.file

theorem eq_of_pairwise {α : Type} {R : α → α → Prop} {l : List α} (h : l.Pairwise R)
    {a b : α} {i j : Nat} (hi : l[i]? = some a) (hj : l[j]? = some b) (hab : ¬R a b)
    (hba : ¬R b a) : i = j := by
  obtain ⟨hi', rfl⟩ := List.getElem?_eq_some_iff.1 hi
  obtain ⟨hj', rfl⟩ := List.getElem?_eq_some_iff.1 hj
  rw [List.pairwise_iff_getElem] at h
  rcases Nat.lt_trichotomy i j with hlt | heq | hlt
  · exact absurd (h i j hi' hj' hlt) hab
  · exact heq
  · exact absurd (h j i hj' hi' hlt) hba

namespace Growth

variable {s : Growth} {done waiting : List Node}

theorem Grown.isTree (h : Grown d root s done waiting) : IsTree s.nodes := by
  have hnodup : (s.nodes.toList.flatMap Node.children).Nodup := h.tiles ▸ List.nodup_range'
  obtain ⟨honce, hdisjoint⟩ := List.nodup_flatMap.1 hnodup
  constructor
  case nonempty =>
    rw [← length_entries]
    exact List.length_pos_of_ne_nil fun hnil ↦ by simpa [hnil] using h.first
  case parent =>
    intro c hpos hc
    have hm : c ∈ s.nodes.toList.flatMap Node.children := by
      rw [h.tiles, List.mem_range'_1]
      omega
    obtain ⟨n, hn, hcn⟩ := List.mem_flatMap.1 hm
    obtain ⟨i, hi⟩ := List.mem_iff_getElem?.1 hn
    refine ⟨i, hasChild_iff.2 ⟨n, hi, hcn⟩, fun j hj ↦ ?_⟩
    obtain ⟨m, hj, hcm⟩ := hasChild_iff.1 hj
    -- two nodes have no child in common
    exact eq_of_pairwise hdisjoint hj hi (fun hd ↦ hd hcm hcn) fun hd ↦ hd hcn hcm
  case once => exact fun n hn ↦ honce n hn.val
  case later =>
    intro i c hc
    obtain ⟨n, hn, hcn⟩ := hasChild_iff.1 hc
    exact ⟨h.later i c hc, h.lt_size (List.mem_of_getElem? hn) hcn⟩

theorem Grown.mem_seen (h : Grown d root s done waiting) (key : String) :
    key ∈ s.seen ↔ ∃ i, Expanded d s.nodes key i := by
  rw [h.keys, List.mem_reverse, List.mem_map]
  constructor
  · rintro ⟨t, ht, rfl⟩
    obtain ⟨ht, hx⟩ := List.mem_filter.1 ht
    obtain ⟨i, hi⟩ := List.mem_iff_getElem?.1 ht
    rw [getElem?_entries] at hi
    obtain ⟨n, hn, rfl⟩ := Option.map_eq_some_iff.1 hi
    exact ⟨i, n, hn, hx, rfl⟩
  · rintro ⟨i, n, hn, hx, rfl⟩
    refine ⟨n.entry, List.mem_filter.2 ⟨?_, hx⟩, rfl⟩
    exact List.mem_of_getElem? (i := i) (by rw [getElem?_entries, hn]; rfl)

theorem Grown.expanded_unique (h : Grown d root s done waiting) {key : String} {i j : Nat}
    (hi : Expanded d s.nodes key i) (hj : Expanded d s.nodes key j) : i = j := by
  obtain ⟨n, hn, hnx, hnk⟩ := hi
  obtain ⟨m, hm, hmx, hmk⟩ := hj
  have hnodup := h.nodup
  rw [h.keys, List.nodup_reverse, List.Nodup, List.pairwise_map, List.pairwise_filter] at hnodup
  have hentry {i : Nat} {n : Node} (hn : s.nodes[i]? = some n) :
      (entries s.nodes)[i]? = some n.entry := by
    rw [getElem?_entries, hn]
    rfl
  exact eq_of_pairwise hnodup (hentry hn) (hentry hm)
    (fun hne ↦ hne hnx hmx (hnk.trans hmk.symm)) fun hne ↦ hne hmx hnx (hmk.trans hnk.symm)

/-- When no node waits, the tree is complete. -/
theorem Grown.breadthFirst (h : Grown d root s done waiting) (hs : s.queue = []) :
    BreadthFirst d root s.nodes := by
  have htree := h.isTree
  have hreached := h.levels.toFrontier
  rw [hs] at hreached
  have hwaiting := pending_eq_nil (h.queue.symm.trans hs)
  have hchildren : ∀ n ∈ s.nodes,
      (n.children.map fun c ↦ s.nodes[c]?.map fun m ↦ (m.file, m.kind)) =
        if n.expanded then (d.edgesOf n.file).map fun e ↦ some (e.target, some e.kind) else [] := by
    intro n hn
    have hm := hn.val
    rw [h.split] at hm
    rcases List.mem_append.1 hm with hm | hm
    · refine Eq.trans (List.map_congr_left fun c _ ↦ ?_) (h.children n hm)
      rw [getElem?_entries, Option.map_map]
      rfl
    · rw [h.bare n hm, hwaiting n hm]
      rfl
  constructor
  case toIsTree => exact htree
  case first =>
    have hfirst := h.first
    rw [List.head?_eq_getElem?, getElem?_entries] at hfirst
    obtain ⟨⟨file, kind, children, expanded⟩, hn, hentry⟩ := Option.map_eq_some_iff.1 hfirst
    cases hentry
    exact ⟨children, hn⟩
  case edges =>
    intro n hn hx
    rw [hchildren n hn, if_pos hx]
  case leaves =>
    intro n hn hx
    have hnil := hchildren n hn
    rwa [hx, if_neg Bool.false_ne_true, List.map_eq_nil_iff] at hnil
  case reached =>
    intro key
    rw [← hreached.mem_iff, h.mem_seen]
    exact ⟨fun ⟨i, hi⟩ ↦ ⟨i, hi, fun j hj ↦ h.expanded_unique hj hi⟩, fun ⟨i, hi, _⟩ ↦ ⟨i, hi⟩⟩
  case nearest =>
    intro i n hn hx m
    obtain ⟨depth, hat, hd⟩ := h.placed i n.entry (by rw [getElem?_entries, hn]; rfl) hx
    constructor
    · intro hm
      rwa [htree.depth_unique hm hat]
    · intro hm
      rwa [hm.unique hd]
  case repeated =>
    intro n hn _
    have hm : d.key n.file ∈ s.seen := h.seen n.entry (List.mem_map_of_mem hn.val)
    obtain ⟨i, m, hi, hx, hk⟩ := (h.mem_seen _).1 hm
    exact ⟨m, Array.mem_of_getElem? hi, hx, hk⟩

end Growth

end TypedLoader.DependencyGraph
