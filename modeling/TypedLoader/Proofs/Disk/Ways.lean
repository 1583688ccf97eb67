import TypedLoader.Proofs.Disk
import TypedLoader.Proofs.Disk.Changes
import TypedLoader.Proofs.Path.EndsIn

namespace TypedLoader.Disk

open TypedLoader.Path (IsName isVoid component componentsOf walk EndsIn)

variable {d d' : Disk} {p : Path} {names : List String} {cs front : List Component}
  {name : String} {bytes : Bytes}

/-- All places that the components lead through, from those names on, are directories. -/
def Way (d : Disk) (names : List String) (cs : List Component) : Prop :=
  ∀ front, front <+: cs → d.isDirectoryAt (inward (walk names front)) = true

theorem Way.start (h : d.Way names cs) : d.isDirectoryAt (inward names) = true :=
  h [] (List.nil_prefix)

theorem Way.goal (h : d.Way names cs) : d.isDirectoryAt (inward (walk names cs)) = true :=
  h cs List.prefix_rfl

theorem Way.mono (h : d.Way names cs)
    (hstay : ∀ q, d.isDirectoryAt q = true → d'.isDirectoryAt q = true) : d'.Way names cs :=
  fun front hfront ↦ hstay _ (h front hfront)

theorem way_nil : d.Way names [] ↔ d.isDirectoryAt (inward names) = true := by
  refine ⟨Way.start, fun h front hfront ↦ ?_⟩
  obtain rfl := List.prefix_nil.1 hfront
  exact h

theorem way_cons {c : Component} : d.Way names (c :: cs) ↔
    d.isDirectoryAt (inward names) = true ∧ d.Way (walk names [c]) cs := by
  constructor
  · intro h
    refine ⟨h.start, fun front hfront ↦ ?_⟩
    rw [← Path.walk_append]
    exact h (c :: front) (List.cons_prefix_cons.2 ⟨rfl, hfront⟩)
  · rintro ⟨hstart, h⟩ front hfront
    cases front with
    | nil => exact hstart
    | cons c' front =>
      obtain ⟨rfl, hrest⟩ := List.cons_prefix_cons.1 hfront
      rw [← List.singleton_append, Path.walk_append]
      exact h front hrest

theorem follow_append {a b : List (List Char)} : d.follow names (a ++ b) = .ok () ↔
    d.follow names a = .ok () ∧ d.follow (walk names (componentsOf a)) b = .ok () := by
  induction a generalizing names with
  | nil => exact ⟨fun h ↦ ⟨rfl, h⟩, fun h ↦ h.2⟩
  | cons s a ih =>
    rw [List.cons_append, follow, follow]
    split
    · exact iff_of_false (fun h ↦ by cases h) (fun h ↦ by cases h.1)
    · split
      · rename_i hvoid
        rw [ih, Path.componentsOf_void hvoid]
      · rename_i hvoid
        rw [Path.componentsOf_step (by simpa using hvoid), component]
        split
        · rw [ih]
          rfl
        · dsimp only
          split
          · rw [ih]
            rfl
          · exact iff_of_false (fun h ↦ by cases h) (fun h ↦ by cases h.1)

/-- Segments can be followed into a directory just if every place on the way is one. -/
theorem follow_iff_way {segments : List (List Char)} : (d.follow names segments = .ok () ∧
    d.isDirectoryAt (inward (walk names (componentsOf segments))) = true) ↔
      d.Way names (componentsOf segments) := by
  induction segments generalizing names with
  | nil => exact ⟨fun h ↦ way_nil.2 h.2, fun h ↦ ⟨rfl, h.goal⟩⟩
  | cons s segments ih =>
    cases hhere : d.isDirectoryAt (inward names) with
    | false =>
      refine iff_of_false (fun h ↦ ?_) (fun h ↦ by rw [h.start] at hhere; cases hhere)
      rw [follow, hhere] at h
      cases h.1
    | true =>
      rw [follow, hhere, if_neg (by decide)]
      split
      · rename_i hvoid
        rw [Path.componentsOf_void hvoid]
        exact ih
      · rename_i hvoid
        rw [Path.componentsOf_step (by simpa using hvoid), way_cons, component]
        split
        · exact ih.trans (and_iff_right hhere).symm
        · dsimp only
          split
          · exact ih.trans (and_iff_right hhere).symm
          · rename_i hthere
            refine iff_of_false (fun h ↦ by cases h.1) (fun h ↦ hthere ?_)
            rw [show d.isDirectoryAt (inward (String.ofList s :: names)) = true from h.2.start]
            rfl

theorem isDirectory_iff :
    d.isDirectory p = true ↔ p.isAbsolute = true ∧ d.Way [] p.bodyComponents := by
  have hway := @follow_iff_way d [] p.segments
  rw [isDirectory]
  constructor
  · intro h
    cases hlocate : d.locate p with
    | error e =>
      rw [hlocate] at h
      cases h
    | ok q =>
      rw [hlocate] at h
      obtain ⟨habsolute, hfollow, rfl⟩ := locate_eq_ok.1 hlocate
      refine ⟨habsolute, hway.1 ⟨hfollow, ?_⟩⟩
      rw [Path.normalize_of_isAbsolute habsolute] at h
      exact h
  · rintro ⟨habsolute, h⟩
    obtain ⟨hfollow, hgoal⟩ := hway.2 h
    rw [locate_eq_ok.2 ⟨habsolute, hfollow, rfl⟩, Path.normalize_of_isAbsolute habsolute]
    exact hgoal

theorem readBytes_eq_ok (h : p.EndsIn front name) :
    d.readBytes p = .ok bytes ↔ d.Way [] front ∧ d.at? p.normalize = some bytes := by
  obtain ⟨segments, hsegments, hfront⟩ := h.segments
  have hlast (hat : d.at? p.normalize = some bytes)
      (hhere : d.isDirectoryAt (inward (walk [] front)) = true) :
      d.follow (walk [] front) [name.toList] = .ok () := by
    have hthere : (d.at? (inward (name :: walk [] front))).isSome = true := by
      rw [inward, ← h.normalize, hat]
      rfl
    rw [follow, hhere, h.isName.isVoid, if_neg h.isName.ne_up, String.ofList_toList]
    simp only [hthere, Bool.or_true, if_true]
    rfl
  constructor
  · intro hread
    have hat := at?_of_readBytes hread
    refine ⟨?_, hat⟩
    cases hlocate : d.locate p with
    | error e =>
      rw [readBytes, hlocate] at hread
      cases hread
    | ok q =>
      obtain ⟨-, hfollow, -⟩ := locate_eq_ok.1 hlocate
      rw [hsegments, follow_append, hfront] at hfollow
      rw [← hfront]
      refine follow_iff_way.1 ⟨hfollow.1, ?_⟩
      rw [hfront]
      cases hhere : d.isDirectoryAt (inward (walk [] front)) with
      | true => rfl
      | false =>
        rw [follow, hhere] at hfollow
        cases hfollow.2
  · rintro ⟨hway, hat⟩
    rw [← hfront] at hway
    obtain ⟨hfollow, hgoal⟩ := follow_iff_way.2 hway
    rw [hfront] at hgoal
    have hall : d.follow [] p.segments = .ok () := by
      rw [hsegments, follow_append, hfront]
      exact ⟨hfollow, hlast hat hgoal⟩
    rw [readBytes, locate_eq_ok.2 ⟨h.isAbsolute, hall, rfl⟩]
    simp only [hat]

theorem exists_parent_of_write (h : d.write p bytes = some d') :
    ∃ q, p.parent? = some q ∧ d.isDirectory q = true := by
  rw [write] at h
  cases hparent : p.parent? with
  | none =>
    rw [hparent] at h
    cases h
  | some q =>
    rw [hparent] at h
    dsimp only at h
    split at h
    · rename_i hready
      exact ⟨q, rfl, (Bool.and_eq_true_iff.1 hready).1⟩
    · cases h

theorem Way.of_write (hp : p.EndsIn front name) (h : d.write p bytes = some d') :
    d.Way [] front := by
  obtain ⟨q, hparent, hdirectory⟩ := exists_parent_of_write h
  obtain ⟨r, hr, -, hfront⟩ := hp.parent?
  obtain rfl : q = r := Option.some.inj (hparent.symm.trans hr)
  exact hfront ▸ (isDirectory_iff.1 hdirectory).2

theorem Way.write (h : d.Way [] front) (hp : p.EndsIn front name)
    (hfree : d.isDirectoryAt p.normalize = false) (bytes : Bytes) :
    ∃ d', d.write p bytes = some d' := by
  obtain ⟨q, hparent, habsolute, hq⟩ := hp.parent?
  have hdirectory : d.isDirectory q = true := isDirectory_iff.2 ⟨habsolute, hq.symm ▸ h⟩
  rw [Disk.write, hparent]
  simp only [hdirectory, hfree, Bool.not_false, Bool.and_self, if_true]
  exact ⟨_, rfl⟩

/-- Where all directories around the start are there, the way leads through once it has been
made. -/
theorem way_makeWay (houter : ∀ outer, outer <:+ names → d.isDirectoryAt (inward outer) = true)
    (h : (d.makeWay names cs).1 = true) : (d.makeWay names cs).2.Way names cs := by
  fun_induction makeWay d names cs with
  | case1 d names => exact way_nil.2 (houter names List.suffix_rfl)
  | case2 d names s cs inner hinner ih =>
    refine way_cons.2 ⟨isDirectoryAt_makeWay _ cs (houter names List.suffix_rfl), ih ?_ h⟩
    intro outer hsuffix
    rcases List.suffix_cons_iff.1 hsuffix with rfl | hsuffix
    · exact hinner
    · exact houter outer hsuffix
  | case3 => cases h
  | case4 d names s cs inner _ _ ih =>
    have hstay (q : Path) (hq : d.isDirectoryAt q = true) :
        ({ d with directories := inner :: d.directories } : Disk).isDirectoryAt q = true :=
      isDirectoryAt_add.2 (Or.inr hq)
    refine way_cons.2
      ⟨isDirectoryAt_makeWay _ cs (hstay _ (houter names List.suffix_rfl)), ih ?_ h⟩
    intro outer hsuffix
    rcases List.suffix_cons_iff.1 hsuffix with rfl | hsuffix
    · exact isDirectoryAt_add.2 (Or.inl rfl)
    · exact hstay _ (houter outer hsuffix)
  | case5 d names cs ih =>
    refine way_cons.2 ⟨isDirectoryAt_makeWay _ cs (houter names List.suffix_rfl), ih ?_ h⟩
    exact fun outer hsuffix ↦ houter outer (hsuffix.trans (List.tail_suffix names))
  | case6 d names c cs hname hup ih =>
    have hwalk : walk names [c] = names := by
      cases c with
      | name s => exact absurd rfl (hname s)
      | up => exact absurd rfl hup
      | _ => rfl
    refine way_cons.2 ⟨isDirectoryAt_makeWay _ cs (houter names List.suffix_rfl), ?_⟩
    rw [hwalk]
    exact ih houter h

theorem makeWay_root (d : Disk) (names : List String) (cs : List Component) :
    d.makeWay names (.root :: cs) = d.makeWay names cs := rfl

theorem Way.makeWay_append (h : d.Way names front) (cs : List Component) :
    d.makeWay names (front ++ cs) = d.makeWay (walk names front) cs := by
  induction front generalizing names with
  | nil => rfl
  | cons c front ih =>
    obtain ⟨-, hrest⟩ := way_cons.1 h
    rw [List.cons_append, ← List.singleton_append (l := front), Path.walk_append, ← ih hrest]
    cases c with
    | name s =>
      have hinner : d.isDirectoryAt (inward (s :: names)) = true := hrest.start
      rw [makeWay]
      simp only [hinner, if_true]
      rfl
    | _ => rfl

end TypedLoader.Disk
