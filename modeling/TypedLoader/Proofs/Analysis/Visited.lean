import TypedLoader.Proofs.Analysis.Walk

namespace TypedLoader.Analysis

open Relation (ReflTransGen)

/-- One step of a walk along the edges that it leaves, by keys: to a file that was
not valid before, and not to a declaration file known before. -/
def Follows (marks : Marks) (before after : Dependencies) (key key' : String) : Prop :=
  isValid marks key' = false ∧ ∃ e ∈ after.edgesAt key, after.key e.target = key' ∧
    (e.kind = .source ∨ key' ∉ before.declarations)

namespace Walk

variable {w : World} {options : Json.Object} {c k k' : Walk} {root : String} {file : Path}
  {queue : List Path} {new : List Edge} {added : List Path}

def FollowsVisited (c k : Walk) (key key' : String) : Prop :=
  (∃ p ∈ k.analyzed, k.files.key p = key) ∧ Follows c.marks c.deps k.deps key key'

/-- A walk that began at `c` with the key `root` has come to what it visited and
to what waits, and goes on to all that the visited files ask for. -/
structure Spreads (c k : Walk) (root : String) : Prop where
  known : ∀ key ∈ c.deps.declarations, key ∈ k.deps.declarations
  visited : ∀ p ∈ k.analyzed, ReflTransGen (FollowsVisited c k) root (k.files.key p)
  waiting : ∀ q ∈ k.queue, isValid c.marks (k.files.key q) = true ∨
    ReflTransGen (FollowsVisited c k) root (k.files.key q)
  settled : ∀ p ∈ k.analyzed, ∀ e ∈ k.deps.edgesAt (k.files.key p),
    e.kind = .source ∨ k.files.key e.target ∉ c.deps.declarations →
      k.Settled (k.files.key e.target)

theorem spreads_start (ha : c.analyzed = []) (hq : ∀ q ∈ c.queue, c.files.key q = root) :
    Spreads c c root where
  known := fun _ h ↦ h
  visited := by simp [ha]
  waiting q hm := Or.inr (hq q hm ▸ .refl)
  settled := by simp [ha]

theorem Spreads.skip (h : Spreads c k root) (hq : k.queue = file :: queue)
    (hv : isValid k.marks (k.files.key file) = true) : Spreads c { k with queue } root where
  known := h.known
  visited := h.visited
  waiting q hm := h.waiting q (hq ▸ List.mem_cons_of_mem file hm)
  settled p hp e he hk := (h.settled p hp e he hk).skip hq hv

section Visiting

variable (hf : From c k) (hq : k.queue = file :: queue)
  (hv : isValid k.marks (k.files.key file) = false)

include hf hq hv

theorem FollowsVisited.touch (ht : Touches k file queue k' new added) {key key' : String}
    (h : FollowsVisited c k key key') : FollowsVisited c k' key key' := by
  obtain ⟨⟨p, hp, rfl⟩, hnew, e, he, hke, hfresh⟩ := h
  have hmem : p ∈ k'.analyzed := by
    rw [ht.analyzed]
    exact List.mem_append_left _ hp
  refine ⟨⟨p, hmem, ht.key p⟩, hnew, e, ?_, ?_, hfresh⟩
  · rw [ht.edgesAt_of_valid hf.deps_case hv (hf.isValid_of_mem hp)]
    exact he
  · rw [(hf.touch hq hv ht).deps_key, ht.key, ← hf.deps_key]
    exact hke

theorem followsVisited_of_waiting {text : String} (hd : ∀ key ∈ c.deps.declarations,
      key ∈ k.deps.declarations)
    (hvis : Visits w options (k.enter file queue) file text k' new added) {q : Path}
    (hm : q ∈ added) : isValid c.marks (k.files.key q) = true ∨
      FollowsVisited c k' (k.files.key file) (k.files.key q) := by
  have ht := hvis.touches
  obtain ⟨e, he, rfl, hfresh⟩ := hvis.links.waiting q hm
  cases hc : isValid c.marks (k.files.key e.target) with
  | true => exact Or.inl rfl
  | false =>
    have hmem : file ∈ k'.analyzed := by
      rw [ht.analyzed]
      exact List.mem_append_right _ (List.mem_singleton_self file)
    refine Or.inr ⟨⟨file, hmem, ht.key file⟩, hc, e, ?_, ?_, hfresh.imp_right fun hn hkey ↦ hn ?_⟩
    · rw [ht.edgesAt_self hf.deps_case]
      exact he
    · rw [(hf.touch hq hv ht).deps_key, ht.key]
    · have hkey := hd _ hkey
      rw [← hf.deps_key] at hkey
      exact hkey

theorem Spreads.visit (h : Spreads c k root) {text : String}
    (hvis : Visits w options (k.enter file queue) file text k' new added) :
    Spreads c k' root := by
  have ht := hvis.touches
  have hpath {key : String} (hp : ReflTransGen (FollowsVisited c k) root key) :
      ReflTransGen (FollowsVisited c k') root key :=
    ReflTransGen.mono (fun _ _ ↦ FollowsVisited.touch hf hq hv ht) _ _ hp
  have hfile : ReflTransGen (FollowsVisited c k') root (k.files.key file) := by
    rcases h.waiting file (hq ▸ List.mem_cons_self) with hc | hp
    · have hk := (hf.valid _).2 (Or.inl hc)
      rw [hv] at hk
      cases hk
    · exact hpath hp
  have hmem {p : Path} : p ∈ k'.analyzed ↔ p ∈ k.analyzed ∨ p = file := by
    rw [ht.analyzed, List.mem_append, List.mem_singleton]
  constructor
  case known => exact fun key hd ↦ (hvis.links.known key).2 (Or.inl (h.known key hd))
  case visited =>
    intro p hp
    rw [ht.key]
    rcases hmem.1 hp with hp | rfl
    · exact hpath (h.visited p hp)
    · exact hfile
  case waiting =>
    intro q hm
    rw [ht.key]
    rw [ht.queue_eq] at hm
    rcases List.mem_append.1 hm with hm | hm
    · exact (h.waiting q (hq ▸ List.mem_cons_of_mem file hm)).imp_right hpath
    · exact (followsVisited_of_waiting hf hq hv h.known hvis hm).imp_right hfile.tail
  case settled =>
    intro p hp e he hfresh
    rw [ht.key] at he hfresh ⊢
    rcases hmem.1 hp with hp | rfl
    · rw [ht.edgesAt_of_valid hf.deps_case hv (hf.isValid_of_mem hp)] at he
      exact (h.settled p hp e he hfresh).touch hq ht
    · rw [ht.edgesAt_self hf.deps_case] at he
      rcases hvis.settled hf.deps_case he with hs | ⟨hsource, hd⟩
      · exact hs
      -- known before, so it has been settled since
      · exact ((hf.known _ hd).resolve_left (hfresh.resolve_left hsource)).touch hq ht

end Visiting

theorem Spreads.steps (hc : From c c) (h : Spreads c c root)
    (hs : ReflTransGen (Step w options) c k) : Spreads c k root := by
  induction hs with
  | refl => exact h
  | tail hs hstep ih =>
    cases hstep with
    | skip hq hv => exact ih.skip hq hv
    | visit hq hv _ hvis => exact .visit (hc.steps hs) hq hv ih hvis

theorem Spreads.isValid_iff (hf : From c k) (h : Spreads c k root) (hq : k.queue = [])
    (hroot : isValid k.marks root = true) (key : String) :
    isValid k.marks key = true ↔ isValid c.marks key = true ∨
      isValid c.marks root = false ∧ ReflTransGen (Follows c.marks c.deps k.deps) root key := by
  constructor
  · intro hv
    rcases (hf.valid key).1 hv with hc | ⟨p, hp, rfl⟩
    · exact Or.inl hc
    have hpath := h.visited p hp
    refine Or.inr ⟨?_, ReflTransGen.mono (fun _ _ hs ↦ hs.2) _ _ hpath⟩
    rcases hpath.cases_head with rfl | ⟨_, ⟨⟨q, hm, rfl⟩, -⟩, -⟩
    · exact hf.fresh p hp
    · exact hf.fresh q hm
  · rintro (hc | ⟨hnew, hpath⟩)
    · exact (hf.valid key).2 (Or.inl hc)
    refine (?_ : isValid k.marks key = true ∧ isValid c.marks key = false).1
    induction hpath with
    | refl => exact ⟨hroot, hnew⟩
    | tail _ hs ih =>
      obtain ⟨hnew, e, he, rfl, hfresh⟩ := hs
      rcases (hf.valid _).1 ih.1 with hc | ⟨p, hp, rfl⟩
      · rw [ih.2] at hc
        cases hc
      · rw [hf.deps_key] at hfresh hnew ⊢
        exact ⟨(h.settled p hp e he hfresh).valid hq, hnew⟩

end Walk

end TypedLoader.Analysis
