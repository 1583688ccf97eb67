import Mathlib.Data.List.Nodup
import Mathlib.Order.WellFounded
import TypedLoader.Proofs.Dependencies.Graph

namespace TypedLoader.Dependencies

open Relation (ReflTransGen TransGen)

/-- A walk under way: the keys that it has seen, the files to follow, the next one first, and
the files that it has found, oldest first. -/
structure Chain where
  seen : List String
  stack : List Path
  found : List Path := []

namespace Chain

variable {d : Dependencies} {root : String} {k k' : Chain} {file : Path} {stack : List Path}

def start (d : Dependencies) (file : Path) : Chain := ⟨[d.key file], [file], []⟩

def turn (d : Dependencies) (k : Chain) (file : Path) (stack : List Path) : Chain :=
  let o := d.scanEdges k.seen (d.edgesOf file)
  ⟨o.2, (newTargets o.1).reverse ++ stack, k.found ++ newTargets o.1⟩

inductive Step (d : Dependencies) : Chain → Chain → Prop
  | follow {k : Chain} {file : Path} {stack : List Path} (h : k.stack = file :: stack) :
      Step d k (k.turn d file stack)

theorem wellFounded_step (d : Dependencies) : WellFounded fun k' k ↦ Step d k k' := by
  refine Subrelation.wf (fun {k' k} h ↦ ?_)
    (InvImage.wf (fun k : Chain ↦ (d.unseen k.seen, k.stack.length)) WellFoundedRelation.wf)
  cases h with
  | @follow file stack h =>
    rw [InvImage, h]
    -- the step sees a new key, or it leaves fewer files to follow
    rcases d.unseen_scanEdges (d.key file) k.seen with hlt | ⟨hnil, heq⟩
    · exact Prod.Lex.left _ _ hlt
    · rw [turn, edgesOf, hnil, heq]
      exact Prod.Lex.right _ (Nat.lt_add_one stack.length)

theorem steps_follow (d : Dependencies) (k : Chain) :
    ∃ seen, ReflTransGen (Step d) k ⟨seen, [], k.found ++ d.follow k.seen k.stack⟩ := by
  obtain ⟨seen, stack, found⟩ := k
  dsimp only
  fun_induction d.follow seen stack generalizing found with
  | case1 seen => exact ⟨seen, by rw [List.append_nil]⟩
  | case2 seen file stack new ih =>
    obtain ⟨seen', hsteps⟩ := ih (found ++ new)
    rw [List.append_assoc] at hsteps
    exact ⟨seen', .head (.follow (k := ⟨seen, file :: stack, found⟩) rfl) hsteps⟩

/-- The keys seen are those of the root and of the files found, each one once. -/
structure Lists (d : Dependencies) (root : String) (k : Chain) : Prop where
  frontier : d.Frontier k.seen root k.stack
  seen_eq : k.seen = (root :: k.found.map d.key).reverse
  nodup : k.seen.Nodup

theorem lists_start (d : Dependencies) (file : Path) : Lists d (d.key file) (start d file) :=
  ⟨d.frontier_start file, rfl, List.nodup_singleton _⟩

theorem Lists.step (h : Lists d root k) (hs : Step d k k') : Lists d root k' := by
  cases hs with
  | @follow file stack hstack =>
    have hfrontier := h.frontier
    rw [hstack] at hfrontier
    refine ⟨hfrontier.step fun p ↦ ?_, ?_, d.nodup_scanEdges _ _ h.nodup⟩
    · rw [turn, List.mem_append, List.mem_reverse, or_comm]
    · rw [turn, seen_scanEdges, h.seen_eq]
      simp

theorem Lists.steps (h : Lists d root k) (hs : ReflTransGen (Step d) k k') : Lists d root k' := by
  induction hs with
  | refl => exact h
  | tail _ hs ih => exact ih.step hs

theorem Lists.mem_iff (h : Lists d root k) (hk : k.stack = []) (key : String) :
    (∃ p ∈ k.found, d.key p = key) ↔ key ≠ root ∧ TransGen d.LeadsTo root key := by
  have hfrontier := h.frontier
  have hnodup := h.nodup
  rw [hk] at hfrontier
  rw [h.seen_eq, List.nodup_reverse, List.nodup_cons] at hnodup
  have hreached := hfrontier.mem_iff key
  rw [h.seen_eq, List.mem_reverse, List.mem_cons, Relation.reflTransGen_iff_eq_or_transGen]
    at hreached
  rw [← List.mem_map]
  constructor
  · intro hm
    have hne : key ≠ root := fun he ↦ hnodup.1 (he ▸ hm)
    exact ⟨hne, (hreached.1 (Or.inr hm)).resolve_left hne⟩
  · rintro ⟨hne, hr⟩
    exact (hreached.2 (Or.inr hr)).resolve_left hne

end Chain

/-- Following the edges of a file ends. It lists a file for every key, other than that of the
file itself, to which a path of edges leads, and no key comes up twice. -/
theorem transitive_lists_reached (d : Dependencies) (file : Path) :
    (WellFounded fun k' k ↦ Chain.Step d k k') ∧
      (∃ seen, ReflTransGen (Chain.Step d) (.start d file) ⟨seen, [], d.transitive file⟩) ∧
      ((d.transitive file).map d.key).Nodup ∧
      ∀ key, (∃ p ∈ d.transitive file, d.key p = key) ↔
        key ≠ d.key file ∧ TransGen d.LeadsTo (d.key file) key := by
  obtain ⟨seen, hsteps⟩ := Chain.steps_follow d (.start d file)
  have hlists := (Chain.lists_start d file).steps hsteps
  have hnodup := hlists.nodup
  rw [hlists.seen_eq, List.nodup_reverse] at hnodup
  exact ⟨Chain.wellFounded_step d, ⟨seen, hsteps⟩, (List.nodup_cons.1 hnodup).2,
    hlists.mem_iff rfl⟩

end TypedLoader.Dependencies
