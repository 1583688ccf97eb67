import Mathlib.Data.List.Pairwise
import Mathlib.Data.Nat.Find
import TypedLoader.Proofs.Dependencies.Graph

namespace TypedLoader.Dependencies

open Relation (ReflTransGen)

inductive Paths (d : Dependencies) (root : String) : Nat → String → Prop
  | here : Paths d root 0 root
  | along {n : Nat} {key key' : String} (h : Paths d root n key) (hl : d.LeadsTo key key') :
      Paths d root (n + 1) key'

/-- The shortest paths from the root to a key have so many edges. -/
structure Distance (d : Dependencies) (root : String) (n : Nat) (key : String) : Prop where
  path : Paths d root n key
  le : ∀ {m}, Paths d root m key → n ≤ m

variable {d : Dependencies} {root : String} {seen : List String} {file : Path}
  {rest waiting : List Path} {key key' : String} {m n : Nat}

theorem Distance.unique (h : Distance d root m key) (h' : Distance d root n key) : m = n :=
  Nat.le_antisymm (h.le h'.path) (h'.le h.path)

theorem Paths.distance (h : Paths d root m key) : ∃ n, n ≤ m ∧ Distance d root n key := by
  classical
  have hpath : ∃ n, Paths d root n key := ⟨m, h⟩
  exact ⟨Nat.find hpath, Nat.find_min' hpath h, Nat.find_spec hpath, fun hn ↦ Nat.find_min' hpath hn⟩

theorem exists_distance (h : ReflTransGen d.LeadsTo root key) : ∃ n, Distance d root n key := by
  have hpath : ∃ n, Paths d root n key := by
    induction h with
    | refl => exact ⟨0, .here⟩
    | tail _ hl ih =>
      obtain ⟨n, hn⟩ := ih
      exact ⟨n + 1, hn.along hl⟩
  obtain ⟨m, hm⟩ := hpath
  obtain ⟨n, -, hn⟩ := hm.distance
  exact ⟨n, hn⟩

theorem distance_root (d : Dependencies) (root : String) : Distance d root 0 root :=
  ⟨.here, fun _ ↦ Nat.zero_le _⟩

theorem Distance.pred (h : Distance d root (n + 1) key) :
    ∃ key', Distance d root n key' ∧ d.LeadsTo key' key := by
  obtain ⟨⟩ | ⟨hpath, hl⟩ := h.path
  refine ⟨_, ⟨hpath, fun {m} hm ↦ ?_⟩, hl⟩
  exact Nat.le_of_succ_le_succ (h.le (hm.along hl))

/-- The files that wait are sorted by their distance. All keys that are as near as the first of
them have been seen, and only those that are at most one edge farther. -/
structure Levels (d : Dependencies) (seen : List String) (root : String) (waiting : List Path) :
    Prop extends Frontier d seen root waiting where
  sorted : waiting.Pairwise fun p q ↦ ∀ m n, Distance d root m (d.key p) →
    Distance d root n (d.key q) → m ≤ n
  near : ∀ p ∈ waiting.head?, ∀ n, Distance d root n (d.key p) →
    ∀ key m, Distance d root m key → m ≤ n → key ∈ seen
  far : ∀ p ∈ waiting.head?, ∀ n, Distance d root n (d.key p) →
    ∀ key ∈ seen, ∀ m, Distance d root m key → m ≤ n + 1

theorem levels_start (d : Dependencies) (file : Path) :
    Levels d [d.key file] (d.key file) [file] where
  toFrontier := d.frontier_start file
  sorted := List.pairwise_singleton _ _
  near p hp n hn key m hm hle := by
    obtain rfl := Option.some.inj hp
    obtain rfl := hn.unique (distance_root d _)
    obtain rfl := Nat.le_zero.1 hle
    cases hm.path
    exact List.mem_singleton_self _
  far p hp n hn key hk m hm := by
    obtain rfl := List.mem_singleton.1 hk
    obtain rfl := hm.unique (distance_root d _)
    exact Nat.zero_le _

theorem Levels.distance_new (h : Levels d seen root (file :: rest))
    (hn : Distance d root n (d.key file)) (hl : d.LeadsTo (d.key file) key) (hk : key ∉ seen) :
    Distance d root (n + 1) key := by
  refine ⟨hn.path.along hl, fun {m} hm ↦ Nat.lt_of_not_le fun hle ↦ hk ?_⟩
  obtain ⟨m', hle', hm'⟩ := hm.distance
  exact h.near file rfl n hn key m' hm' (Nat.le_trans hle' hle)

section Following

variable {p : Path} {k : Nat} (h : Levels d seen root (file :: rest))
  (hk : Distance d root k (d.key file))

include h hk

theorem Levels.seen_step (hm : key ∈ (d.scanEdges seen (d.edgesOf file)).2) :
    key ∈ seen ∨ Distance d root (k + 1) key := by
  by_cases hs : key ∈ seen
  · exact Or.inl hs
  · rw [mem_scanEdges] at hm
    exact Or.inr (h.distance_new hk (hm.resolve_left hs) hs)

theorem Levels.distance_target
    (hp : p ∈ newTargets (d.scanEdges seen (d.edgesOf file)).1) :
    Distance d root (k + 1) (d.key p) := by
  obtain ⟨e, he, rfl⟩ := mem_newTargets.1 hp
  have hm := (d.mem_scanEdges_iff_new seen (d.edgesOf file) _).2 (Or.inr ⟨e, he, rfl⟩)
  exact (h.seen_step hk hm).resolve_left (d.notMem_of_new seen _ he)

/-- The files that wait next are as far as the file, or one edge farther. -/
theorem Levels.between
    (hp : p ∈ rest ++ newTargets (d.scanEdges seen (d.edgesOf file)).1)
    (hn : Distance d root n (d.key p)) : k ≤ n ∧ n ≤ k + 1 := by
  rcases List.mem_append.1 hp with hr | hr
  · exact ⟨(List.pairwise_cons.1 h.sorted).1 p hr k n hk hn,
      h.far file rfl k hk _ (h.waits p (List.mem_cons_of_mem file hr)) n hn⟩
  · rw [hn.unique (h.distance_target hk hr)]
    exact ⟨Nat.le_succ k, Nat.le_refl _⟩

theorem Levels.sorted_step :
    (rest ++ newTargets (d.scanEdges seen (d.edgesOf file)).1).Pairwise fun p q ↦
      ∀ m n, Distance d root m (d.key p) → Distance d root n (d.key q) → m ≤ n := by
  refine List.pairwise_append.2 ⟨(List.pairwise_cons.1 h.sorted).2, ?_, ?_⟩
  · refine List.pairwise_of_forall_mem_list fun p hp q hq m n hm hn ↦ ?_
    rw [hm.unique (h.distance_target hk hp), hn.unique (h.distance_target hk hq)]
  · intro p hp q hq m n hm hn
    rw [hn.unique (h.distance_target hk hq)]
    exact h.far file rfl k hk _ (h.waits p (List.mem_cons_of_mem file hp)) m hm

end Following

theorem Levels.step (h : Levels d seen root (file :: rest)) :
    Levels d (d.scanEdges seen (d.edgesOf file)).2 root
      (rest ++ newTargets (d.scanEdges seen (d.edgesOf file)).1) := by
  have hfrontier : Frontier d (d.scanEdges seen (d.edgesOf file)).2 root
      (rest ++ newTargets (d.scanEdges seen (d.edgesOf file)).1) :=
    h.toFrontier.step fun p ↦ List.mem_append
  obtain ⟨k, hk⟩ := exists_distance (h.reached _ (h.waits file List.mem_cons_self))
  have hsorted := h.sorted_step hk
  have hold (key : String) (hs : key ∈ seen) : key ∈ (d.scanEdges seen (d.edgesOf file)).2 :=
    (d.mem_scanEdges seen _ key).2 (Or.inl hs)
  constructor
  case toFrontier => exact hfrontier
  case sorted => exact hsorted
  case near =>
    intro p hp n hn key m hm hmn
    obtain ⟨tail, htail⟩ := List.head?_eq_some_iff.1 hp
    have hnk := (h.between hk (htail ▸ List.mem_cons_self) hn).2
    by_cases hmk : m ≤ k
    · exact hold key (h.near file rfl k hk key m hm hmk)
    -- the key is one edge behind a key as near as the file, which has been followed by now
    obtain rfl : m = k + 1 := by omega
    obtain ⟨key', hk', hl⟩ := hm.pred
    have hmem := hold key' (h.near file rfl k hk key' k hk' (Nat.le_refl k))
    rcases hfrontier.followed key' hmem with ⟨q, hq, rfl⟩ | hall
    · rw [htail] at hq hsorted
      have hnk' : n ≤ k := by
        rcases List.mem_cons.1 hq with rfl | hq
        · exact Nat.le_of_eq (hn.unique hk')
        · exact (List.pairwise_cons.1 hsorted).1 q hq n k hn hk'
      omega
    · exact hall key hl
  case far =>
    intro p hp n hn key hkey m hm
    obtain ⟨tail, htail⟩ := List.head?_eq_some_iff.1 hp
    have hkn := (h.between hk (htail ▸ List.mem_cons_self) hn).1
    rcases h.seen_step hk hkey with hs | hd
    · exact Nat.le_trans (h.far file rfl k hk key hs m hm) (Nat.succ_le_succ hkn)
    · rw [hm.unique hd]
      exact Nat.succ_le_succ hkn

end TypedLoader.Dependencies
