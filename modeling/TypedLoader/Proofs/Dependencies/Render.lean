import Mathlib.Data.List.Perm.Subperm
import TypedLoader.Proofs.Dependencies.BreadthFirst

namespace TypedLoader.DependencyGraph

open Relation (ReflTransGen)

variable {d : Dependencies} {nodes : Array Node}

def Node.line (n : Node) (depth : Nat) : String :=
  String.ofList (List.replicate (2 * depth) ' ') ++ n.file.text ++
    if n.expanded then "" else " (*)"

def lineAt (nodes : Array Node) (m : Nat × Nat) : String :=
  (nodes[m.1]?.map (·.line m.2)).getD ""

/-- Indices of nodes with the depths they are printed at: those to print, the next one first,
and those that have been printed, in their order. -/
structure Printing where
  stack : List (Nat × Nat)
  printed : List (Nat × Nat)

namespace Printing

variable {p p' : Printing}

def start : Printing := ⟨[(0, 0)], []⟩

def turn (p : Printing) (n : Node) (index depth : Nat) (stack : List (Nat × Nat)) : Printing :=
  ⟨n.children.map (·, depth + 1) ++ stack, p.printed ++ [(index, depth)]⟩

inductive Step (nodes : Array Node) : Printing → Printing → Prop
  | print {p : Printing} {n : Node} {index depth : Nat} {stack : List (Nat × Nat)}
      (h : p.stack = (index, depth) :: stack) (hn : nodes[index]? = some n) :
      Step nodes p (p.turn n index depth stack)

def met (p : Printing) : List (Nat × Nat) := p.printed ++ p.stack

/-- Nodes come up once and at their depth, after their parents and along with their siblings. -/
structure Orderly (nodes : Array Node) (p : Printing) : Prop where
  nodup : (p.met.map Prod.fst).Nodup
  root : 0 ∈ p.met.map Prod.fst
  placed : ∀ m ∈ p.met, At nodes m.2 m.1
  inside : ∀ m ∈ p.met, m.1 < nodes.size
  behind : ∀ c ∈ p.met.map Prod.fst, 0 < c → ∃ i ∈ p.printed.map Prod.fst, HasChild nodes i c
  along : ∀ i ∈ p.printed.map Prod.fst, ∀ c, HasChild nodes i c → c ∈ p.met.map Prod.fst

theorem orderly_start (h : IsTree nodes) : Orderly nodes start where
  nodup := List.nodup_singleton _
  root := List.mem_singleton_self _
  placed m hm := by
    obtain rfl := List.mem_singleton.1 hm
    exact .root
  inside m hm := by
    obtain rfl := List.mem_singleton.1 hm
    exact h.nonempty
  behind c hc hpos := absurd (List.mem_singleton.1 hc) (Nat.ne_of_gt hpos)
  along i hi := by cases hi

theorem met_turn {n : Node} {index depth : Nat} {stack : List (Nat × Nat)}
    (h : p.stack = (index, depth) :: stack) :
    (p.turn n index depth stack).met.Perm (p.met ++ n.children.map (·, depth + 1)) := by
  have hcomm : (n.children.map (·, depth + 1) ++ stack).Perm
      (stack ++ n.children.map (·, depth + 1)) := List.perm_append_comm
  rw [met, met, turn, h, List.append_assoc, List.append_assoc]
  exact (hcomm.cons (index, depth)).append_left p.printed

theorem map_fst_children (children : List Nat) (depth : Nat) :
    (children.map (·, depth)).map Prod.fst = children := by
  rw [List.map_map]
  exact List.map_id children

theorem Orderly.step (h : Orderly nodes p) (ht : IsTree nodes) (hs : Step nodes p p') :
    Orderly nodes p' := by
  obtain ⟨hstack, hn⟩ := hs
  rename_i n index depth stack
  have hperm := met_turn (n := n) hstack
  have hkeys := hperm.map Prod.fst
  rw [List.map_append, map_fst_children] at hkeys
  have hchild (c : Nat) (hc : c ∈ n.children) : HasChild nodes index c := ⟨n, hn, hc⟩
  have hmem : (index, depth) ∈ p.met := by
    rw [met, hstack]
    exact List.mem_append_right _ List.mem_cons_self
  -- a node that is printed now has not been printed
  have hnew : index ∉ p.printed.map Prod.fst := by
    have hnodup := h.nodup
    rw [met, hstack, List.map_append, List.map_cons] at hnodup
    exact fun hi ↦ (List.nodup_append.1 hnodup).2.2 index hi index List.mem_cons_self rfl
  have hprinted (i : Nat) : i ∈ (p.turn n index depth stack).printed.map Prod.fst ↔
      i ∈ p.printed.map Prod.fst ∨ i = index := by
    rw [turn, List.map_append, List.mem_append, List.map_singleton, List.mem_singleton]
  constructor
  case nodup =>
    rw [hkeys.nodup_iff, List.nodup_append]
    refine ⟨h.nodup, ht.once n (Array.mem_of_getElem? hn), ?_⟩
    rintro c hc _ hcn rfl
    have hlt := (ht.later index c (hchild c hcn)).1
    obtain ⟨i, hi, hic⟩ := h.behind c hc (Nat.zero_lt_of_lt hlt)
    exact hnew (ht.parent_unique hic (hchild c hcn) ▸ hi)
  case root => exact hkeys.mem_iff.2 (List.mem_append_left _ h.root)
  case placed =>
    intro m hm
    rcases List.mem_append.1 (hperm.mem_iff.1 hm) with hm | hm
    · exact h.placed m hm
    · obtain ⟨c, hc, rfl⟩ := List.mem_map.1 hm
      exact (h.placed _ hmem).child (hchild c hc)
  case inside =>
    intro m hm
    rcases List.mem_append.1 (hperm.mem_iff.1 hm) with hm | hm
    · exact h.inside m hm
    · obtain ⟨c, hc, rfl⟩ := List.mem_map.1 hm
      exact (ht.later index c (hchild c hc)).2
  case behind =>
    intro c hc hpos
    rcases List.mem_append.1 (hkeys.mem_iff.1 hc) with hc | hc
    · obtain ⟨i, hi, hic⟩ := h.behind c hc hpos
      exact ⟨i, (hprinted i).2 (Or.inl hi), hic⟩
    · exact ⟨index, (hprinted index).2 (Or.inr rfl), hchild c hc⟩
  case along =>
    intro i hi c hic
    rw [hkeys.mem_iff, List.mem_append]
    rcases (hprinted i).1 hi with hi | rfl
    · exact Or.inl (h.along i hi c hic)
    · obtain ⟨m, hm, hc⟩ := hic
      obtain rfl := Option.some.inj (hn.symm.trans hm)
      exact Or.inr hc

theorem Orderly.length_le (h : Orderly nodes p) : p.printed.length ≤ nodes.size := by
  have hsub : p.met.map Prod.fst ⊆ List.range nodes.size := by
    intro i hi
    obtain ⟨m, hm, rfl⟩ := List.mem_map.1 hi
    exact List.mem_range.2 (h.inside m hm)
  -- no index comes up twice, so there are no more turns than nodes
  have hle := (h.nodup.subperm hsub).length_le
  rw [List.length_map, List.length_range, met, List.length_append] at hle
  omega

theorem Orderly.acc (h : Orderly nodes p) (ht : IsTree nodes) :
    Acc (fun p' p ↦ Step nodes p p') p := by
  induction hk : nodes.size - p.printed.length using Nat.strongRecOn generalizing p with
  | _ k ih =>
    refine ⟨p, fun p' hs ↦ ?_⟩
    have hnext := h.step ht hs
    refine ih _ ?_ hnext rfl
    have hle := hnext.length_le
    obtain ⟨-, -⟩ := hs
    rw [turn, List.length_append, List.length_singleton] at hle ⊢
    omega

theorem Orderly.exists_end (h : Orderly nodes p) (ht : IsTree nodes) :
    ∃ order, ReflTransGen (Step nodes) p ⟨[], order⟩ ∧ Orderly nodes ⟨[], order⟩ := by
  induction h.acc ht with
  | intro p _ ih =>
    obtain ⟨stack, printed⟩ := p
    cases stack with
    | nil => exact ⟨printed, .refl, h⟩
    | cons top stack =>
      have hlt := h.inside top (List.mem_append_right _ List.mem_cons_self)
      have hs : Step nodes ⟨top :: stack, printed⟩ _ :=
        .print rfl (Array.getElem?_eq_getElem hlt)
      obtain ⟨order, hsteps, hend⟩ := ih _ hs (h.step ht hs)
      exact ⟨order, .head hs hsteps, hend⟩

theorem Orderly.perm_range {order : List (Nat × Nat)} (h : Orderly nodes ⟨[], order⟩)
    (ht : IsTree nodes) : (order.map Prod.fst).Perm (List.range nodes.size) := by
  have hnodup := h.nodup
  have hroot := h.root
  have hinside := h.inside
  have halong := h.along
  simp only [met, List.append_nil] at hnodup hroot hinside halong
  refine (List.perm_ext_iff_of_nodup hnodup List.nodup_range).2 fun i ↦ ?_
  rw [List.mem_range]
  constructor
  · intro hi
    obtain ⟨m, hm, rfl⟩ := List.mem_map.1 hi
    exact hinside m hm
  · intro hi
    induction i using Nat.strongRecOn with
    | _ i ih =>
      rcases Nat.eq_zero_or_pos i with rfl | hpos
      · exact hroot
      · obtain ⟨parent, hp, -⟩ := ht.parent i hpos hi
        have hlt := (ht.later parent i hp).1
        exact halong parent (ih parent hlt (Nat.lt_trans hlt hi)) i hp

/-- In a tree all children of a node are printed under it. -/
theorem lines_eq (ht : IsTree nodes) {n : Node} {index : Nat} (hn : nodes[index]? = some n)
    (depth : Nat) : (DependencyGraph.mk nodes).lines depth index =
      n.line depth :: n.children.flatMap ((DependencyGraph.mk nodes).lines (depth + 1)) := by
  have hlater : n.children.filter (index < ·) = n.children :=
    List.filter_eq_self.2 fun c hc ↦ decide_eq_true (ht.later index c ⟨n, hn, hc⟩).1
  rw [DependencyGraph.lines]
  split
  · rename_i hnone
    cases hnone.symm.trans hn
  · rename_i m hm
    obtain rfl := Option.some.inj (hm.symm.trans hn)
    refine congrArg (m.line depth :: ·) ((List.flatMap_subtype fun _ _ ↦ rfl).trans ?_)
    rw [List.unattach_attach, hlater]

/-- The lines that have been printed, and those of the nodes that will be. -/
def text (nodes : Array Node) (p : Printing) : List String :=
  p.printed.map (lineAt nodes) ++
    p.stack.flatMap fun m ↦ (DependencyGraph.mk nodes).lines m.2 m.1

theorem text_step (ht : IsTree nodes) (hs : Step nodes p p') : text nodes p' = text nodes p := by
  obtain ⟨hstack, hn⟩ := hs
  rename_i n index depth stack
  have hline : lineAt nodes (index, depth) = n.line depth := by
    rw [lineAt, hn]
    rfl
  rw [text, text, turn, hstack, List.flatMap_cons, lines_eq ht hn, List.map_append,
    List.map_singleton, hline, List.flatMap_append, List.flatMap_map, List.append_assoc,
    List.singleton_append, List.cons_append]

theorem text_steps (ht : IsTree nodes) (hs : ReflTransGen (Step nodes) p p') :
    text nodes p' = text nodes p := by
  induction hs with
  | refl => rfl
  | tail _ hs ih => exact (text_step ht hs).trans ih

end Printing

/-- The tree of a file grows until no node waits. It is then a tree in which every node behind
the root has one parent, before it, and in which each key that the file reaches is expanded
once, as far from the root as its shortest path is long. Printing it ends, with a line for each
node. -/
theorem graph_breadthFirst (d : Dependencies) (file : Path) :
    (WellFounded fun s' s ↦ Growth.Step d s s') ∧
      (∃ seen, ReflTransGen (Growth.Step d) (.start d file) ⟨seen, (d.graph file).nodes, []⟩) ∧
      BreadthFirst d file (d.graph file).nodes ∧
      Acc (fun p' p ↦ Printing.Step (d.graph file).nodes p p') .start ∧
      ∃ order, ReflTransGen (Printing.Step (d.graph file).nodes) .start ⟨[], order⟩ ∧
        (order.map Prod.fst).Perm (List.range (d.graph file).nodes.size) ∧
        (∀ m ∈ order, At (d.graph file).nodes m.2 m.1) ∧
        (d.graph file).render =
          String.join (order.map fun m ↦ lineAt (d.graph file).nodes m ++ "\n") := by
  obtain ⟨seen, hgrow⟩ := Growth.steps_expand d (.start d file)
  obtain ⟨done, waiting, hgrown⟩ := (Growth.grown_start d file).steps hgrow
  have hshape : BreadthFirst d file (d.graph file).nodes := hgrown.breadthFirst rfl
  have ht := hshape.toIsTree
  have horderly := Printing.orderly_start ht
  obtain ⟨order, hprint, hend⟩ := horderly.exists_end ht
  have htext := Printing.text_steps ht hprint
  refine ⟨Growth.wellFounded_step d, ⟨seen, hgrow⟩, hshape, horderly.acc ht, order, hprint,
    hend.perm_range ht, ?_, ?_⟩
  · exact fun m hm ↦ hend.placed m (List.mem_append_left _ hm)
  · have hlines : (d.graph file).lines 0 0 = order.map (lineAt (d.graph file).nodes) := by
      simpa [Printing.text, Printing.start] using htext.symm
    rw [render, hlines, List.map_map]
    rfl

end TypedLoader.DependencyGraph
