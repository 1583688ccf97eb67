import TypedLoader.Dependencies.Reach

namespace TypedLoader

structure DependencyGraph.Node where
  file : Path
  kind : Option EdgeKind
  children : List Nat
  expanded : Bool
deriving DecidableEq, Inhabited

structure DependencyGraph where
  nodes : Array DependencyGraph.Node

namespace DependencyGraph

/-- Adds the targets of edges as children of a node. Gives the nodes to expand
next. -/
def addChildren (nodes : Array Node) (parent : Nat) :
    List (Edge × Bool) → Array Node × List (Nat × Path)
  | [] => (nodes, [])
  | (e, isNew) :: rest =>
    let child := nodes.size
    let nodes := (nodes.push ⟨e.target, some e.kind, [], isNew⟩).modify parent fun n ↦
      { n with children := n.children ++ [child] }
    let (nodes, queue) := addChildren nodes parent rest
    (nodes, if isNew then (child, e.target) :: queue else queue)

theorem addChildren_eq_nil (nodes : Array Node) (parent : Nat) (found : List (Edge × Bool))
    (h : Dependencies.newTargets found = []) : (addChildren nodes parent found).2 = [] := by
  induction found generalizing nodes with
  | nil => rfl
  | cons f found ih =>
    obtain ⟨e, isNew⟩ := f
    cases isNew with
    | true => simp [Dependencies.newTargets] at h
    | false => simpa [addChildren] using ih _ (by simpa [Dependencies.newTargets] using h)

def expand (d : Dependencies) (seen : List String) (nodes : Array Node)
    (queue : List (Nat × Path)) : Array Node :=
  match queue with
  | [] => nodes
  | (index, file) :: queue =>
    let next := addChildren nodes index (d.scanEdges seen (d.edgesOf file)).1
    expand d (d.scanEdges seen (d.edgesOf file)).2 next.1 (queue ++ next.2)
termination_by (d.unseen seen, queue.length)
decreasing_by
  rcases d.unseen_scanEdges (d.key file) seen with h | ⟨h, h'⟩
  · exact Prod.Lex.left _ _ h
  · rw [Dependencies.edgesOf, addChildren_eq_nil _ _ _ h, h']
    exact Prod.Lex.right _ (by simp)

/-- The lines of the subtree at a node, indented by its depth. Files that are
expanded elsewhere are marked. -/
def lines (g : DependencyGraph) (depth index : Nat) : List String :=
  match h : g.nodes[index]? with
  | none => []
  | some node =>
    have : index < g.nodes.size := (Array.getElem?_eq_some_iff.1 h).1
    let indent := String.ofList (List.replicate (2 * depth) ' ')
    (indent ++ node.file.text ++ if node.expanded then "" else " (*)") ::
      (node.children.filter (index < ·)).attach.flatMap fun ⟨child, hc⟩ ↦
        have : index < child := by simpa using (List.mem_filter.1 hc).2
        g.lines (depth + 1) child
termination_by g.nodes.size - index

def render (g : DependencyGraph) : String :=
  String.join ((g.lines 0 0).map (· ++ "\n"))

end DependencyGraph

def Dependencies.graph (d : Dependencies) (file : Path) : DependencyGraph :=
  ⟨DependencyGraph.expand d [d.key file] #[⟨file, none, [], true⟩] [(0, file)]⟩

end TypedLoader
