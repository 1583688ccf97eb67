import Mathlib.Data.List.Lex
import Mathlib.Data.Prod.Lex
import TypedLoader.Compilation
import TypedLoader.Proofs.Dependencies.BreadthFirst
import TypedLoader.Proofs.Dependencies.Chain
import TypedLoader.Proofs.Path.Normal

namespace TypedLoader

open Relation (ReflTransGen)

namespace Dependencies

variable {d : Dependencies} {root key key' : String} {places other : List Nat} {e e' : Edge}

def rank (places : List Nat) : Nat ×ₗ List Nat := toLex (places.length, places)

theorem rank_injective : Function.Injective rank :=
  fun _ _ h ↦ congrArg (fun r ↦ (ofLex r).2) h

theorem rank_nil_lt (places : List Nat) (i : Nat) : rank [] < rank (places ++ [i]) := by
  refine Prod.Lex.toLex_lt_toLex.2 (Or.inl ?_)
  rw [List.length_append]
  exact Nat.succ_pos places.length

theorem append_lt_of_length_eq {a b : List Nat} (hlength : a.length = b.length) (hlt : a < b)
    (s t : List Nat) : a ++ s < b ++ t := by
  induction a generalizing b with
  | nil =>
    obtain rfl := List.length_eq_zero_iff.1 hlength.symm
    exact absurd hlt (lt_irrefl _)
  | cons i a ih =>
    cases b with
    | nil => cases hlength
    | cons j b =>
      rw [List.cons_lt_cons_iff] at hlt
      rw [List.cons_append, List.cons_append, List.cons_lt_cons_iff]
      exact hlt.imp_right fun ⟨hij, hlt⟩ ↦ ⟨hij, ih (Nat.succ.inj hlength) hlt⟩

theorem rank_append_lt {a b : List Nat} (h : rank a < rank b) (i j : Nat) :
    rank (a ++ [i]) < rank (b ++ [j]) := by
  refine Prod.Lex.toLex_lt_toLex.2 ?_
  simp only [List.length_append, List.length_singleton]
  rcases Prod.Lex.toLex_lt_toLex.1 h with hlt | ⟨heq, hlt⟩
  · exact Or.inl (Nat.succ_lt_succ hlt)
  · exact Or.inr ⟨congrArg (· + 1) heq, append_lt_of_length_eq heq hlt [i] [j]⟩

theorem rank_append_le {a b : List Nat} (h : rank a ≤ rank b) (i : Nat) :
    rank (a ++ [i]) ≤ rank (b ++ [i]) := by
  rcases h.eq_or_lt with heq | hlt
  · rw [rank_injective heq]
  · exact (rank_append_lt hlt i i).le

theorem rank_sibling_lt (places : List Nat) {i j : Nat} (h : i < j) :
    rank (places ++ [i]) < rank (places ++ [j]) := by
  refine Prod.Lex.toLex_lt_toLex.2 (Or.inr ⟨?_, List.append_left_lt ?_⟩)
  · rw [List.length_append, List.length_append, List.length_singleton, List.length_singleton]
  · exact List.cons_lt_cons_iff.2 (Or.inl h)

/-- Following the edges at the places, from a root, leads to a key. -/
inductive Route (d : Dependencies) (root : String) : List Nat → String → Prop
  | here : Route d root [] root
  | along {places : List Nat} {key : String} {i : Nat} {e : Edge} (h : Route d root places key)
      (he : (d.edgesAt key)[i]? = some e) : Route d root (places ++ [i]) (d.key e.target)

theorem Route.unique (h : Route d root places key) (h' : Route d root places key') :
    key = key' := by
  induction h generalizing key' with
  | here =>
    generalize hp : [] = places at h'
    cases h' with
    | here => rfl
    | along => simp at hp
  | @along places key i e h he ih =>
    generalize hp : places ++ [i] = places' at h'
    cases h' with
    | here => simp at hp
    | along h' he' =>
      obtain ⟨rfl, hi⟩ := List.append_inj' hp rfl
      obtain rfl := List.singleton_injective hi
      obtain rfl := ih h'
      rw [Option.some.inj (he.symm.trans he')]

/-- In breadth-first order, the edge is the first one that leads to the key. -/
def FirstEdge (d : Dependencies) (root key : String) (e : Edge) : Prop :=
  ∃ places key' i, Route d root places key' ∧ (d.edgesAt key')[i]? = some e ∧
    d.key e.target = key ∧ ∀ other, Route d root other key → rank (places ++ [i]) ≤ rank other

theorem FirstEdge.unique (h : FirstEdge d root key e) (h' : FirstEdge d root key e') : e = e' := by
  obtain ⟨places, from₁, i, hroute, he, hkey, hfirst⟩ := h
  obtain ⟨places', from₂, j, hroute', he', hkey', hfirst'⟩ := h'
  have heq : places ++ [i] = places' ++ [j] := rank_injective
    (le_antisymm (hfirst _ (hkey' ▸ hroute'.along he')) (hfirst' _ (hkey ▸ hroute.along he)))
  obtain ⟨rfl, hi⟩ := List.append_inj' heq rfl
  obtain rfl := List.singleton_injective hi
  obtain rfl := hroute.unique hroute'
  exact Option.some.inj (he.symm.trans he')

theorem pairwise_scanEdges (d : Dependencies) (seen : List String) (edges : List Edge) :
    (d.scanEdges seen edges).1.Pairwise fun f g ↦
      g.2 = true → d.key f.1.target ≠ d.key g.1.target := by
  have hseen (seen : List String) (edges : List Edge) {key : String} (hk : key ∈ seen) :
      ∀ g ∈ (d.scanEdges seen edges).1, g.2 = true → key ≠ d.key g.1.target := by
    rintro ⟨g, _⟩ hg rfl rfl
    exact d.notMem_of_new seen edges hg hk
  induction edges generalizing seen with
  | nil => exact List.Pairwise.nil
  | cons e edges ih =>
    rw [scanEdges]
    split
    · rename_i he
      exact List.pairwise_cons.2 ⟨hseen seen edges he, ih seen⟩
    · exact List.pairwise_cons.2 ⟨hseen _ edges List.mem_cons_self, ih _⟩

end Dependencies

namespace DependencyGraph

open Dependencies (Route rank)

variable {d : Dependencies} {root : Path} {nodes : Array Node}

def FirstMet (d : Dependencies) (nodes : Array Node) : Prop :=
  (entries nodes).Pairwise fun t u ↦ u.2.2 = true → d.key t.1 ≠ d.key u.1

namespace Growth

variable {s s' : Growth} {done waiting : List Node}

theorem firstMet_start (d : Dependencies) (root : Path) : FirstMet d (start d root).nodes :=
  List.pairwise_singleton _ _

theorem Keyed.firstMet_step (h : Keyed d root s) (hm : FirstMet d s.nodes) (hs : Step d s s') :
    FirstMet d s'.nodes := by
  obtain @⟨index, file, queue, -⟩ := hs
  rw [FirstMet, Growth.turn, entries_addChildren, List.pairwise_append, List.pairwise_map]
  refine ⟨hm, d.pairwise_scanEdges s.seen (d.edgesOf file), fun t ht u hu hx heq ↦ ?_⟩
  obtain ⟨⟨e, isNew⟩, he, rfl⟩ := List.mem_map.1 hu
  obtain rfl : isNew = true := hx
  -- the key of a node has been seen
  exact d.notMem_of_new s.seen (d.edgesOf file) he (heq ▸ h.seen t ht)

theorem Grown.firstMet_steps (h : Grown d root s done waiting) (hm : FirstMet d s.nodes)
    (hs : ReflTransGen (Step d) s s') : FirstMet d s'.nodes := by
  induction hs with
  | refl => exact hm
  | tail hs hstep ih =>
    obtain ⟨_, _, h'⟩ := h.steps hs
    exact h'.firstMet_step ih hstep

end Growth

/-- From the root, taking children by their places leads to a node. -/
inductive Spot (nodes : Array Node) : List Nat → Nat → Prop
  | root : Spot nodes [] 0
  | child {places : List Nat} {i j c : Nat} {n : Node} (h : Spot nodes places i)
      (hn : nodes[i]? = some n) (hc : n.children[j]? = some c) : Spot nodes (places ++ [j]) c

/-- A breadth-first tree whose nodes are in the order of their spots. -/
structure Laid (d : Dependencies) (root : Path) (nodes : Array Node) : Prop
    extends BreadthFirst d root nodes where
  tiles : nodes.toList.flatMap Node.children = List.range' 1 (nodes.size - 1)
  firstMet : FirstMet d nodes

theorem laid_graph (d : Dependencies) (file : Path) : Laid d file (d.graph file).nodes := by
  obtain ⟨seen, hsteps⟩ := Growth.steps_expand d (.start d file)
  have hstart := Growth.grown_start d file
  obtain ⟨_, _, h⟩ := hstart.steps hsteps
  exact ⟨h.breadthFirst rfl, h.tiles, hstart.firstMet_steps (Growth.firstMet_start d file) hsteps⟩

namespace Laid

variable {places other : List Nat} {i k c : Nat} {n m : Node}

theorem children_lt (h : Laid d root nodes) :
    (∀ n ∈ nodes.toList, n.children.Pairwise (· < ·)) ∧ nodes.toList.Pairwise fun n m ↦
      ∀ c ∈ n.children, ∀ c' ∈ m.children, c < c' := by
  rw [← List.pairwise_flatMap, h.tiles]
  exact List.pairwise_lt_range' 1

theorem child_lt_of_place (h : Laid d root nodes) {j j' c' : Nat} (hn : nodes[i]? = some n)
    (hc : n.children[j]? = some c) (hm : nodes[k]? = some m) (hc' : m.children[j']? = some c')
    (hlt : i < k ∨ i = k ∧ j < j') : c < c' := by
  obtain ⟨hsiblings, hparents⟩ := h.children_lt
  rw [← Array.getElem?_toList] at hn hm
  rcases hlt with hik | ⟨rfl, hj⟩
  · obtain ⟨hi, rfl⟩ := List.getElem?_eq_some_iff.1 hn
    obtain ⟨hk, rfl⟩ := List.getElem?_eq_some_iff.1 hm
    exact List.pairwise_iff_getElem.1 hparents i k hi hk hik c (List.mem_of_getElem? hc) c'
      (List.mem_of_getElem? hc')
  · obtain rfl := Option.some.inj (hn.symm.trans hm)
    obtain ⟨hj₁, rfl⟩ := List.getElem?_eq_some_iff.1 hc
    obtain ⟨hj₂, rfl⟩ := List.getElem?_eq_some_iff.1 hc'
    exact List.pairwise_iff_getElem.1 (hsiblings n (List.mem_of_getElem? hn)) j j' hj₁ hj₂ hj

theorem child_lt_iff (h : Laid d root nodes) {j j' c' : Nat} (hn : nodes[i]? = some n)
    (hc : n.children[j]? = some c) (hm : nodes[k]? = some m) (hc' : m.children[j']? = some c') :
    c < c' ↔ i < k ∨ i = k ∧ j < j' := by
  refine ⟨fun hlt ↦ ?_, h.child_lt_of_place hn hc hm hc'⟩
  by_contra hplace
  rcases Nat.lt_trichotomy i k with hik | rfl | hki
  · exact hplace (Or.inl hik)
  · rcases Nat.lt_trichotomy j j' with hj | rfl | hj
    · exact hplace (Or.inr ⟨rfl, hj⟩)
    · obtain rfl := Option.some.inj (hn.symm.trans hm)
      obtain rfl := Option.some.inj (hc.symm.trans hc')
      exact Nat.lt_irrefl c hlt
    · exact Nat.lt_asymm hlt (h.child_lt_of_place hm hc' hn hc (Or.inr ⟨rfl, hj⟩))
  · exact Nat.lt_asymm hlt (h.child_lt_of_place hm hc' hn hc (Or.inl hki))

theorem pos_of_child (h : Laid d root nodes) {j : Nat} (hn : nodes[i]? = some n)
    (hc : n.children[j]? = some c) : 0 < c :=
  Nat.zero_lt_of_lt (h.later i c ⟨n, hn, List.mem_of_getElem? hc⟩).1

theorem spot_unique (h : Laid d root nodes) (hi : Spot nodes places i)
    (hi' : Spot nodes other i) : places = other := by
  induction hi generalizing other with
  | root =>
    generalize hk : 0 = k at hi'
    cases hi' with
    | root => rfl
    | child _ hn hc => exact absurd hk (h.pos_of_child hn hc).ne
  | @child places i j c n hi hn hc ih =>
    cases hi' with
    | root => exact absurd (h.pos_of_child hn hc) (Nat.lt_irrefl 0)
    | @child places' k j' _ m hk hm hc' =>
      have hle := (h.child_lt_iff hn hc hm hc').not.1 (Nat.lt_irrefl c)
      have hge := (h.child_lt_iff hm hc' hn hc).not.1 (Nat.lt_irrefl c)
      obtain rfl : i = k := by omega
      obtain rfl : j = j' := by omega
      rw [ih hk]

/-- Nodes are numbered in breadth-first order. -/
theorem rank_lt (h : Laid d root nodes) (hi : Spot nodes places i) (hk : Spot nodes other k)
    (hlt : i < k) : rank places < rank other := by
  induction hi generalizing other k with
  | root =>
    cases hk with
    | root => exact absurd hlt (Nat.lt_irrefl 0)
    | child => exact Dependencies.rank_nil_lt _ _
  | child hi hn hc ih =>
    cases hk with
    | root => exact absurd hlt (Nat.not_lt_zero _)
    | child hk hm hc' =>
      rcases (h.child_lt_iff hn hc hm hc').1 hlt with hik | ⟨rfl, hj⟩
      · exact Dependencies.rank_append_lt (ih hk hik) _ _
      · rw [h.spot_unique hi hk]
        exact Dependencies.rank_sibling_lt _ hj

theorem exists_spot (h : Laid d root nodes) (hi : i < nodes.size) :
    ∃ places, Spot nodes places i := by
  induction i using Nat.strongRecOn with
  | ind i ih =>
    rcases Nat.eq_zero_or_pos i with rfl | hpos
    · exact ⟨[], .root⟩
    · obtain ⟨k, hchild, -⟩ := h.parent i hpos hi
      obtain ⟨hki, -⟩ := h.later k i hchild
      obtain ⟨places, hk⟩ := ih k hki (hki.trans hi)
      obtain ⟨n, hn, hm⟩ := hchild
      obtain ⟨j, hj⟩ := List.mem_iff_getElem?.1 hm
      exact ⟨places ++ [j], hk.child hn hj⟩

theorem child_at (h : Laid d root nodes) (hn : nodes[i]? = some n) (hx : n.expanded = true)
    (j : Nat) : (n.children[j]?.map fun c ↦ nodes[c]?.map fun m ↦ (m.file, m.kind)) =
      (d.edgesOf n.file)[j]?.map fun e ↦ some (e.target, some e.kind) := by
  rw [← List.getElem?_map, ← List.getElem?_map, h.edges n (Array.mem_of_getElem? hn) hx]

theorem child_of_edge (h : Laid d root nodes) (hn : nodes[i]? = some n) (hx : n.expanded = true)
    {j : Nat} {e : Edge} (he : (d.edgesOf n.file)[j]? = some e) :
    ∃ c m, n.children[j]? = some c ∧ nodes[c]? = some m ∧ m.file = e.target := by
  have hat := h.child_at hn hx j
  rw [he] at hat
  obtain ⟨c, hc, hm⟩ := Option.map_eq_some_iff.1 hat
  obtain ⟨m, hm, heq⟩ := Option.map_eq_some_iff.1 hm
  exact ⟨c, m, hc, hm, congrArg Prod.fst heq⟩

theorem edge_of_child (h : Laid d root nodes) {j : Nat} (hn : nodes[i]? = some n)
    (hc : n.children[j]? = some c) (hm : nodes[c]? = some m) :
    ∃ e, (d.edgesOf n.file)[j]? = some e ∧ m.file = e.target ∧ m.kind = some e.kind := by
  have hx : n.expanded = true := by
    by_contra hx
    rw [h.leaves n (Array.mem_of_getElem? hn) (Bool.eq_false_iff.2 hx)] at hc
    cases hc
  have hat := h.child_at hn hx j
  rw [hc, Option.map_some, hm] at hat
  obtain ⟨e, he, heq⟩ := Option.map_eq_some_iff.1 hat.symm
  obtain ⟨htarget, hkind⟩ := Prod.mk.inj (Option.some.inj heq)
  exact ⟨e, he, htarget.symm, hkind.symm⟩

theorem route (h : Laid d root nodes) (hi : Spot nodes places i) (hn : nodes[i]? = some n) :
    Route d (d.key root) places (d.key n.file) := by
  induction hi generalizing n with
  | root =>
    obtain ⟨children, hfirst⟩ := h.first
    obtain rfl := Option.some.inj (hfirst.symm.trans hn)
    exact .here
  | child _ hm hc ih =>
    obtain ⟨e, he, hfile, -⟩ := h.edge_of_child hm hc hn
    rw [hfile]
    exact (ih hm).along he

theorem le_of_expanded (h : Laid d root nodes) (hn : nodes[i]? = some n)
    (hk : Expanded d nodes (d.key n.file) k) : k ≤ i := by
  refine Nat.le_of_not_lt fun hlt ↦ ?_
  obtain ⟨m, hm, hx, hkey⟩ := hk
  have hentry {i : Nat} {n : Node} (hn : nodes[i]? = some n) :
      (entries nodes)[i]? = some n.entry := by
    rw [getElem?_entries, hn, Option.map_some]
  obtain ⟨hi, hni⟩ := List.getElem?_eq_some_iff.1 (hentry hn)
  obtain ⟨hk, hmk⟩ := List.getElem?_eq_some_iff.1 (hentry hm)
  have hne := List.pairwise_iff_getElem.1 h.firstMet i k hi hk hlt
  rw [hni, hmk] at hne
  exact hne hx hkey.symm

theorem exists_expanded (h : Laid d root nodes) (hn : nodes[i]? = some n) :
    ∃ k, Expanded d nodes (d.key n.file) k := by
  cases hx : n.expanded with
  | true => exact ⟨i, n, hn, hx, rfl⟩
  | false =>
    obtain ⟨m, hm, hmx, hkey⟩ := h.repeated n (Array.mem_of_getElem? hn) hx
    obtain ⟨k, hk⟩ := Array.mem_iff_getElem?.1 hm
    exact ⟨k, m, hk, hmx, hkey⟩

theorem exists_first (h : Laid d root nodes) {key : String} (hr : Route d (d.key root) other key) :
    ∃ places i, Spot nodes places i ∧ Expanded d nodes key i ∧ rank places ≤ rank other := by
  induction hr with
  | here =>
    obtain ⟨children, hfirst⟩ := h.first
    exact ⟨[], 0, .root, ⟨_, hfirst, rfl, rfl⟩, le_rfl⟩
  | @along other key j e _ he ih =>
    obtain ⟨places, i, hspot, ⟨n, hn, hx, rfl⟩, hle⟩ := ih
    obtain ⟨c, m, hc, hm, hfile⟩ := h.child_of_edge hn hx he
    obtain ⟨k, hk⟩ := h.exists_expanded hm
    obtain ⟨first, hfirst⟩ := h.exists_spot (Array.getElem?_eq_some_iff.1 hk.choose_spec.1).1
    refine ⟨first, k, hfirst, hfile ▸ hk, ?_⟩
    have hchild := hspot.child hn hc
    -- the child may repeat a key that is expanded before it
    calc rank first ≤ rank (places ++ [j]) := by
          rcases (h.le_of_expanded hm hk).eq_or_lt with rfl | hlt
          · rw [h.spot_unique hfirst hchild]
          · exact (h.rank_lt hfirst hchild hlt).le
      _ ≤ rank (other ++ [j]) := Dependencies.rank_append_le hle j

/-- An expanded node is found by the first edge to its key. -/
theorem firstEdge (h : Laid d root nodes) (hn : nodes[i]? = some n) (hx : n.expanded = true)
    {kind : EdgeKind} (hk : n.kind = some kind) :
    d.FirstEdge (d.key root) (d.key n.file) ⟨n.file, kind⟩ := by
  obtain ⟨spot, hspot⟩ := h.exists_spot (Array.getElem?_eq_some_iff.1 hn).1
  have hfirst : ∀ other, Route d (d.key root) other (d.key n.file) → rank spot ≤ rank other := by
    intro other hr
    obtain ⟨spot', k, hspot', hexpanded, hle⟩ := h.exists_first hr
    have hki : k ≤ i := h.le_of_expanded hn hexpanded
    obtain ⟨m, hm, -, hkey⟩ := hexpanded
    obtain rfl : k = i := Nat.le_antisymm hki (h.le_of_expanded hm ⟨n, hn, hx, hkey.symm⟩)
    rwa [h.spot_unique hspot hspot']
  cases hspot with
  | root =>
    obtain ⟨children, hroot⟩ := h.first
    obtain rfl := Option.some.inj (hroot.symm.trans hn)
    cases hk
  | @child places i' j _ m hspot hm hc =>
    obtain ⟨⟨target, kind'⟩, he, htarget, hkind⟩ := h.edge_of_child hm hc hn
    obtain rfl := Option.some.inj (hk.symm.trans hkind)
    obtain rfl : n.file = target := htarget
    exact ⟨places, _, j, h.route hspot hm, he, rfl, hfirst⟩

end Laid

end DependencyGraph

namespace FileDeps

open DependencyGraph (Node)

variable {d : Dependencies} {file p q : Path}

/-- The node is expanded, and stands for the file by an edge of the kind. -/
def Found (d : Dependencies) (file : Path) (kind : EdgeKind) (p : Path) (i : Nat) : Prop :=
  ∃ n, (d.graph file).nodes[i]? = some n ∧ n.expanded = true ∧ n.kind = some kind ∧ n.file = p

theorem mem_types : p ∈ (collect d file).types ↔ ∃ i, Found d file .typeReference p i := by
  simp only [collect, List.mem_filterMap, List.mem_filter]
  constructor
  · rintro ⟨n, ⟨hn, hx⟩, hp⟩
    split at hp
    · rename_i hk
      obtain ⟨i, hi⟩ := List.mem_iff_getElem?.1 hn
      exact ⟨i, n, Array.getElem?_toList ▸ hi, hx, hk, Option.some.inj hp⟩
    · cases hp
  · rintro ⟨i, n, hn, hx, hk, rfl⟩
    exact ⟨n, ⟨(Array.mem_of_getElem? hn).val, hx⟩, if_pos hk⟩

theorem mem_imports : p ∈ (collect d file).imports ↔
    ∃ i kind, kind ≠ .typeReference ∧ Found d file kind p i := by
  simp only [collect, List.mem_filterMap, List.mem_filter]
  constructor
  · rintro ⟨n, ⟨hn, hx⟩, hp⟩
    split at hp
    · rename_i hk
      obtain ⟨i, hi⟩ := List.mem_iff_getElem?.1 hn
      have hi : (d.graph file).nodes[i]? = some n := Array.getElem?_toList ▸ hi
      rcases hk with hk | hk
      · exact ⟨i, .source, by simp, n, hi, hx, hk, Option.some.inj hp⟩
      · exact ⟨i, .declaration, by simp, n, hi, hx, hk, Option.some.inj hp⟩
    · cases hp
  · rintro ⟨i, kind, hkind, n, hn, hx, hk, rfl⟩
    refine ⟨n, ⟨(Array.mem_of_getElem? hn).val, hx⟩, if_pos ?_⟩
    cases kind with
    | source => exact Or.inl hk
    | declaration => exact Or.inr hk
    | typeReference => exact absurd rfl hkind

theorem mem_all (h : p ∈ (collect d file).all) : ∃ i kind, Found d file kind p i := by
  rcases List.mem_append.1 h with h | h
  · obtain ⟨i, kind, -, hfound⟩ := mem_imports.1 h
    exact ⟨i, kind, hfound⟩
  · obtain ⟨i, hfound⟩ := mem_types.1 h
    exact ⟨i, .typeReference, hfound⟩

theorem Found.unique {kind kind' : EdgeKind} {i j : Nat} (h : Found d file kind p i)
    (h' : Found d file kind' q j) (hkey : d.key p = d.key q) : kind = kind' := by
  obtain ⟨n, hn, hx, hk, rfl⟩ := h
  obtain ⟨m, hm, hx', hk', rfl⟩ := h'
  have hlaid := DependencyGraph.laid_graph d file
  obtain rfl : i = j := Nat.le_antisymm (hlaid.le_of_expanded hm ⟨n, hn, hx, hkey⟩)
    (hlaid.le_of_expanded hn ⟨m, hm, hx', hkey.symm⟩)
  obtain rfl := Option.some.inj (hn.symm.trans hm)
  exact Option.some.inj (hk.symm.trans hk')

theorem Found.key_ne {kind : EdgeKind} {i : Nat} (h : Found d file kind p i) :
    d.key p ≠ d.key file := by
  obtain ⟨n, hn, hx, hk, rfl⟩ := h
  have hlaid := DependencyGraph.laid_graph d file
  obtain ⟨children, hfirst⟩ := hlaid.first
  intro hkey
  obtain rfl := Nat.le_zero.1 (hlaid.le_of_expanded hfirst ⟨n, hn, hx, hkey⟩)
  obtain rfl := Option.some.inj (hfirst.symm.trans hn)
  cases hk

theorem nodup_all (d : Dependencies) (file : Path) : ((collect d file).all.map d.key).Nodup := by
  have hnodes := (DependencyGraph.laid_graph d file).firstMet
  rw [DependencyGraph.FirstMet, DependencyGraph.entries, List.pairwise_map] at hnodes
  -- each list is a selection of the expanded nodes
  have hlist (P : Node → Prop) [DecidablePred P] :
      ((((d.graph file).nodes.toList.filter (·.expanded)).filterMap fun n ↦
        if P n then some n.file else none).map d.key).Nodup := by
    rw [List.Nodup, List.pairwise_map, List.pairwise_filterMap, List.pairwise_filter]
    refine hnodes.imp fun {n m} hne _ hx p hp q hq ↦ ?_
    obtain rfl := Option.some.inj (Option.ite_none_right_eq_some.1 hp).2
    obtain rfl := Option.some.inj (Option.ite_none_right_eq_some.1 hq).2
    exact hne hx
  rw [all, List.map_append, List.nodup_append]
  refine ⟨hlist _, hlist _, ?_⟩
  simp only [List.forall_mem_map]
  intro p hp q hq hkey
  obtain ⟨i, kind, hkind, hp⟩ := mem_imports.1 hp
  obtain ⟨j, hq⟩ := mem_types.1 hq
  exact hkind (hp.unique hq hkey)

/-- What is listed of a file are the files that the walk along the edges finds, up to the spelling
of their paths, each one once. A file is listed by the name of types exactly if such a name is
the first edge to its key. -/
theorem collect_first_edges (c : Compilation) (file : Path) :
    let d := c.deps
    let deps := collect d file
    (deps.all.map d.key).Nodup ∧ (∀ p ∈ deps.all, d.key p ≠ d.key file) ∧
      (∀ key, (∃ p ∈ deps.all, d.key p = key) ↔ ∃ p ∈ c.dependencies file, d.key p = key) ∧
      ∀ p ∈ deps.all, ∃ e, (∀ e', d.FirstEdge (d.key file) (d.key p) e' ↔ e' = e) ∧
        e.target = p ∧ (p ∈ deps.types ↔ e.kind = .typeReference) := by
  intro d deps
  have hne : ∀ p ∈ deps.all, d.key p ≠ d.key file := fun p hp ↦ by
    obtain ⟨i, kind, hfound⟩ := mem_all hp
    exact hfound.key_ne
  refine ⟨nodup_all d file, hne, fun key ↦ ?_, fun p hp ↦ ?_⟩
  · obtain ⟨seen, hsteps⟩ := Dependencies.Chain.steps_follow d (.start d file.normalize)
    have hlisted := ((Dependencies.Chain.lists_start d file.normalize).steps hsteps).mem_iff rfl key
    have hroot : d.key file.normalize = d.key file := d.case.key_normalize file
    have hreached := mem_collect d file key
    rw [Relation.reflTransGen_iff_eq_or_transGen] at hreached
    rw [hroot] at hlisted
    refine Iff.trans ⟨?_, ?_⟩ hlisted.symm
    · rintro ⟨p, hp, rfl⟩
      exact ⟨hne p hp, (hreached.1 (Or.inr ⟨p, hp, rfl⟩)).resolve_left (hne p hp)⟩
    · rintro ⟨hkey, hr⟩
      exact (hreached.2 (Or.inr hr)).resolve_left hkey
  · obtain ⟨i, kind, hfound⟩ := mem_all hp
    have hfirst : d.FirstEdge (d.key file) (d.key p) ⟨p, kind⟩ := by
      obtain ⟨n, hn, hx, hk, rfl⟩ := hfound
      exact (DependencyGraph.laid_graph d file).firstEdge hn hx hk
    refine ⟨⟨p, kind⟩, fun e' ↦ ⟨fun he ↦ he.unique hfirst, fun he ↦ he ▸ hfirst⟩, rfl, ?_⟩
    rw [mem_types]
    constructor
    · rintro ⟨j, htypes⟩
      exact hfound.unique htypes rfl
    · intro (hkind : kind = .typeReference)
      exact ⟨i, hkind ▸ hfound⟩

end FileDeps

end TypedLoader
