import TypedLoader.Dependencies.Basic

namespace TypedLoader.Dependencies

def targetKeys (d : Dependencies) : List String :=
  d.edges.toList.flatMap fun (_, edges) ↦ edges.map fun e ↦ d.key e.target

/-- Goes through edges: gives each with whether its target is new, and the keys
seen then. -/
def scanEdges (d : Dependencies) (seen : List String) :
    List Edge → List (Edge × Bool) × List String
  | [] => ([], seen)
  | e :: rest =>
    if d.key e.target ∈ seen then
      let (found, seen) := scanEdges d seen rest
      ((e, false) :: found, seen)
    else
      let (found, seen) := scanEdges d (d.key e.target :: seen) rest
      ((e, true) :: found, seen)

def newTargets (found : List (Edge × Bool)) : List Path :=
  found.filterMap fun (e, isNew) ↦ if isNew then some e.target else none

def unseen (d : Dependencies) (seen : List String) : Nat :=
  (d.targetKeys.filter (· ∉ seen)).length

theorem mem_targetKeys {d : Dependencies} {key : String} {e : Edge} (h : e ∈ d.edgesAt key) :
    d.key e.target ∈ d.targetKeys := by
  unfold edgesAt at h
  cases hk : d.edges[key]? with
  | none => simp [hk] at h
  | some edges =>
    simp only [hk, Option.getD_some] at h
    have : (key, edges) ∈ d.edges.toList :=
      Std.ExtTreeMap.mem_toList_iff_getElem?_eq_some.2 hk
    unfold targetKeys
    rw [List.mem_flatMap]
    exact ⟨(key, edges), this, List.mem_map.2 ⟨e, h, rfl⟩⟩

theorem scanEdges_spec (d : Dependencies) (seen : List String) (edges : List Edge) :
    (∀ k ∈ seen, k ∈ (d.scanEdges seen edges).2) ∧
      (newTargets (d.scanEdges seen edges).1 = [] ∧ (d.scanEdges seen edges).2 = seen ∨
        ∃ e ∈ edges, d.key e.target ∉ seen ∧ d.key e.target ∈ (d.scanEdges seen edges).2) := by
  induction edges generalizing seen with
  | nil => simp [scanEdges, newTargets]
  | cons e edges ih =>
    unfold scanEdges
    split
    · obtain ⟨keep, h⟩ := ih seen
      refine ⟨keep, ?_⟩
      rcases h with ⟨h, h'⟩ | ⟨e', he, hn, hs⟩
      · exact Or.inl ⟨by simpa [newTargets] using h, h'⟩
      · exact Or.inr ⟨e', List.mem_cons_of_mem _ he, hn, hs⟩
    · rename_i hn
      obtain ⟨keep, -⟩ := ih (d.key e.target :: seen)
      exact ⟨fun k hk ↦ keep k (List.mem_cons_of_mem _ hk),
        Or.inr ⟨e, List.mem_cons_self, hn, keep _ List.mem_cons_self⟩⟩

theorem unseen_lt {d : Dependencies} {seen seen' : List String} {key : String}
    (h : ∀ k ∈ seen, k ∈ seen') (hm : key ∈ d.targetKeys) (hn : key ∉ seen) (hs : key ∈ seen') :
    d.unseen seen' < d.unseen seen := by
  have sub : (d.targetKeys.filter (· ∉ seen')) =
      (d.targetKeys.filter (· ∉ seen)).filter (· ∉ seen') := by
    rw [List.filter_filter]
    refine List.filter_congr fun k _ ↦ ?_
    by_cases hk : k ∈ seen'
    · simp [hk]
    · have : k ∉ seen := fun hs ↦ hk (h k hs)
      simp [hk, this]
  unfold unseen
  rw [sub]
  refine List.length_filter_lt_length_iff_exists.2 ⟨key, ?_, by simpa using hs⟩
  simp [hm, hn]

/-- Following the edges of a file either sees something new, or leaves nothing
more to follow. -/
theorem unseen_scanEdges (d : Dependencies) (key : String) (seen : List String) :
    d.unseen (d.scanEdges seen (d.edgesAt key)).2 < d.unseen seen ∨
      newTargets (d.scanEdges seen (d.edgesAt key)).1 = [] ∧
        d.unseen (d.scanEdges seen (d.edgesAt key)).2 = d.unseen seen := by
  obtain ⟨keep, h⟩ := d.scanEdges_spec seen (d.edgesAt key)
  rcases h with ⟨h, h'⟩ | ⟨e, he, hn, hs⟩
  · exact Or.inr ⟨h, by rw [h']⟩
  · exact Or.inl (unseen_lt keep (mem_targetKeys he) hn hs)

/-- Follows the files on the stack, the last one found first; gives the files
found, in the order of their discovery. -/
def follow (d : Dependencies) (seen : List String) (stack : List Path) : List Path :=
  match stack with
  | [] => []
  | file :: stack =>
    let found := newTargets (d.scanEdges seen (d.edgesOf file)).1
    found ++ d.follow (d.scanEdges seen (d.edgesOf file)).2 (found.reverse ++ stack)
termination_by (d.unseen seen, stack.length)
decreasing_by
  rcases d.unseen_scanEdges (d.key file) seen with h | ⟨h, h'⟩
  · exact Prod.Lex.left _ _ h
  · rw [edgesOf, h, h']
    exact Prod.Lex.right _ (by simp)

def transitive (d : Dependencies) (file : Path) : List Path := d.follow [d.key file] [file]

end TypedLoader.Dependencies
