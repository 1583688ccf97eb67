import TypedLoader.Text.Blank
import TypedLoader.Proofs.Json.Tokens

namespace TypedLoader.Json

mutual

def draft : Json → Draft
  | .null => .null
  | .bool b => .bool b
  | .num n => .num n.numeral
  | .str s => .str (pieces s)
  | .arr items => .arr (itemDrafts items)
  | .obj members => .obj (memberDrafts members)

def itemDrafts : List Json → List Draft
  | [] => []
  | j :: rest => j.draft :: itemDrafts rest

def memberDrafts : List (String × Json) → List (List Piece × Draft)
  | [] => []
  | (key, j) :: rest => (pieces key, j.draft) :: memberDrafts rest

end

namespace Builder

def feed (b : Builder) (ts : List Token) : Option Builder := ts.foldlM step? b

theorem feed_cons (b : Builder) (t : Token) (ts : List Token) :
    b.feed (t :: ts) = (b.step? t).bind (feed · ts) := List.foldlM_cons

theorem feed_append (b : Builder) (s t : List Token) :
    b.feed (s ++ t) = (b.feed s).bind (feed · t) := List.foldlM_append

theorem feed_singleton (b : Builder) (t : Token) : b.feed [t] = b.step? t := by
  rw [feed_cons]
  cases b.step? t <;> rfl

def Builds (j : Json) : Prop :=
  ∀ frames, feed ⟨frames, .value⟩ j.tokens = add? frames j.draft ∧
    feed ⟨frames, .firstItem⟩ j.tokens = add? frames j.draft

theorem feed_items {j : Json} {rest : List Json} (h : ∀ i ∈ j :: rest, Builds i)
    (frames : List Frame) (acc : List Draft) {e : Expect} (he : e = .value ∨ e = .firstItem) :
    feed ⟨.array acc :: frames, e⟩ (itemTokens (j :: rest) ++ [.closeArray]) =
      add? frames (.arr (acc.reverse ++ itemDrafts (j :: rest))) := by
  induction rest generalizing j acc e with
  | nil =>
    have hj : feed ⟨.array acc :: frames, e⟩ j.tokens =
        some ⟨.array (j.draft :: acc) :: frames, .after⟩ := by
      obtain ⟨hv, hf⟩ := h j List.mem_cons_self (.array acc :: frames)
      rcases he with rfl | rfl
      · exact hv
      · exact hf
    rw [itemTokens, feed_append, hj, Option.bind_some, feed_singleton]
    simp [step?, closeArray?, itemDrafts]
  | cons k rest ih =>
    have hj : feed ⟨.array acc :: frames, e⟩ j.tokens =
        some ⟨.array (j.draft :: acc) :: frames, .after⟩ := by
      obtain ⟨hv, hf⟩ := h j List.mem_cons_self (.array acc :: frames)
      rcases he with rfl | rfl
      · exact hv
      · exact hf
    have hcomma : step? ⟨.array (j.draft :: acc) :: frames, .after⟩ .comma =
        some ⟨.array (j.draft :: acc) :: frames, .value⟩ := rfl
    rw [itemTokens, List.append_assoc, feed_append, hj, Option.bind_some, List.cons_append,
      feed_cons, hcomma, Option.bind_some,
      ih (fun i hi ↦ h i (List.mem_cons_of_mem j hi)) (j.draft :: acc) (Or.inl rfl)]
    simp [itemDrafts]

theorem feed_member {j : Json} (h : Builds j) (frames : List Frame)
    (acc : List (List Piece × Draft)) (key : List Piece) {e : Expect}
    (he : e = .key ∨ e = .firstKey) :
    feed ⟨.object acc :: frames, e⟩ (.str key :: .colon :: j.tokens) =
      some ⟨.object ((key, j.draft) :: acc) :: frames, .after⟩ := by
  have hkey : step? ⟨.object acc :: frames, e⟩ (.str key) =
      some ⟨.member acc key :: frames, .colon⟩ := by
    rcases he with rfl | rfl <;> rfl
  have hcolon : step? ⟨.member acc key :: frames, .colon⟩ .colon =
      some ⟨.member acc key :: frames, .value⟩ := rfl
  rw [feed_cons, hkey, Option.bind_some, feed_cons, hcolon, Option.bind_some]
  exact (h (.member acc key :: frames)).1

theorem feed_members {m : String × Json} {rest : List (String × Json)}
    (h : ∀ i ∈ m :: rest, Builds i.2) (frames : List Frame) (acc : List (List Piece × Draft))
    {e : Expect} (he : e = .key ∨ e = .firstKey) :
    feed ⟨.object acc :: frames, e⟩ (memberTokens (m :: rest) ++ [.closeObject]) =
      add? frames (.obj (acc.reverse ++ memberDrafts (m :: rest))) := by
  induction rest generalizing m acc e with
  | nil =>
    obtain ⟨key, j⟩ := m
    have hj := feed_member (h (key, j) List.mem_cons_self) frames acc (pieces key) he
    rw [memberTokens, feed_append, hj, Option.bind_some, feed_singleton]
    simp [step?, closeObject?, memberDrafts]
  | cons k rest ih =>
    obtain ⟨key, j⟩ := m
    have hj := feed_member (h (key, j) List.mem_cons_self) frames acc (pieces key) he
    have hcomma : step? ⟨.object ((pieces key, j.draft) :: acc) :: frames, .after⟩ .comma =
        some ⟨.object ((pieces key, j.draft) :: acc) :: frames, .key⟩ := rfl
    have hs : memberTokens ((key, j) :: k :: rest) ++ [.closeObject] =
        (.str (pieces key) :: .colon :: j.tokens) ++
          (.comma :: (memberTokens (k :: rest) ++ [.closeObject])) := by
      simp [memberTokens]
    rw [hs, feed_append, hj, Option.bind_some, feed_cons, hcomma, Option.bind_some,
      ih (fun i hi ↦ h i (List.mem_cons_of_mem _ hi)) ((pieces key, j.draft) :: acc) (Or.inl rfl)]
    simp [memberDrafts]

theorem builds {depth : Nat} {j : Json} (h : Portable depth j) : Builds j := by
  induction h with
  | null => exact fun frames ↦ ⟨feed_singleton .., feed_singleton ..⟩
  | bool b => exact fun frames ↦ ⟨feed_singleton .., feed_singleton ..⟩
  | int _ => exact fun frames ↦ ⟨feed_singleton .., feed_singleton ..⟩
  | str s => exact fun frames ↦ ⟨feed_singleton .., feed_singleton ..⟩
  | @arr _ items _ ih =>
    intro frames
    have hopen : ∀ e, e = .value ∨ e = .firstItem →
        step? ⟨frames, e⟩ .openArray = some ⟨.array [] :: frames, .firstItem⟩ := by
      rintro e (rfl | rfl) <;> rfl
    have hitems : feed ⟨.array [] :: frames, .firstItem⟩ (itemTokens items ++ [.closeArray]) =
        add? frames (.arr (itemDrafts items)) := by
      cases items with
      | nil => exact feed_singleton ..
      | cons j rest => exact feed_items ih frames [] (Or.inr rfl)
    rw [tokens, draft]
    exact ⟨by rw [feed_cons, hopen _ (Or.inl rfl), Option.bind_some, hitems],
      by rw [feed_cons, hopen _ (Or.inr rfl), Option.bind_some, hitems]⟩
  | @obj _ members _ _ ih =>
    intro frames
    have hopen : ∀ e, e = .value ∨ e = .firstItem →
        step? ⟨frames, e⟩ .openObject = some ⟨.object [] :: frames, .firstKey⟩ := by
      rintro e (rfl | rfl) <;> rfl
    have hmembers : feed ⟨.object [] :: frames, .firstKey⟩
        (memberTokens members ++ [.closeObject]) = add? frames (.obj (memberDrafts members)) := by
      cases members with
      | nil => exact feed_singleton ..
      | cons m rest => exact feed_members ih frames [] (Or.inr rfl)
    rw [tokens, draft]
    exact ⟨by rw [feed_cons, hopen _ (Or.inl rfl), Option.bind_some, hmembers],
      by rw [feed_cons, hopen _ (Or.inr rfl), Option.bind_some, hmembers]⟩

end Builder

theorem ofText?_draft {depth : Nat} {j : Json} (h : Portable depth j) :
    Draft.ofText? j.text = some j.draft := by
  have hb : j.tokens.foldlM Builder.step? {} = some ⟨[], .done j.draft⟩ := (Builder.builds h []).1
  rw [Draft.ofText?, text, String.toList_ofList, tokens?_chars h, Option.bind_some,
    Draft.ofTokens?, hb]
  rfl

theorem text?_unit {n : Nat} (h : n < 0xD800) (rest : List Piece) :
    Piece.text? (.unit n :: rest) = (Piece.text? rest).map (Char.ofNat n :: ·) := by
  have hlow : ¬0xD800 ≤ n := by omega
  have hhigh : ¬0xDC00 ≤ n := by omega
  cases rest with
  | nil => simp [Piece.text?, hlow]
  | cons p rest =>
    cases p with
    | char c => simp [Piece.text?, hlow]
    | unit m => simp [Piece.text?, hlow, hhigh]

theorem text?_pieces (s : List Char) : Piece.text? (s.map piece) = some s := by
  induction s with
  | nil => rfl
  | cons c s ih =>
    rw [List.map_cons, piece]
    split
    · rename_i h
      rw [text?_unit (by omega), ih, Option.map_some, Char.ofNat_toNat]
    · rw [Piece.text?, ih, Option.map_some]

theorem string?_pieces (s : String) : Piece.string? (pieces s) = some s := by
  rw [Piece.string?, pieces, text?_pieces, Option.map_some, String.ofList_toList]

namespace Object

theorem insert_of_notMem {o : Object} {key : String} (value : Json) (h : key ∉ o.map (·.1)) :
    o.insert key value = o ++ [(key, value)] := by
  induction o with
  | nil => rfl
  | cons m o ih =>
    obtain ⟨k, v⟩ := m
    simp only [List.map_cons, List.mem_cons, not_or] at h
    have hk : (k == key) = false := beq_eq_false_iff_ne.2 (Ne.symm h.1)
    rw [insert, hk, ih h.2]
    rfl

theorem merge_of_nodup {base upper : Object} (h : (base.map (·.1) ++ upper.map (·.1)).Nodup) :
    merge base upper = base ++ upper := by
  induction upper generalizing base with
  | nil => simp [merge]
  | cons m upper ih =>
    obtain ⟨key, value⟩ := m
    have hk : key ∉ base.map (·.1) := fun hb ↦
      (List.nodup_append.1 h).2.2 key hb key List.mem_cons_self rfl
    have hn : ((base ++ [(key, value)]).map (·.1) ++ upper.map (·.1)).Nodup := by simpa using h
    have hs : merge base ((key, value) :: upper) = merge (base.insert key value) upper := rfl
    rw [hs, insert_of_notMem value hk, ih hn]
    simp

theorem ofMembers_of_nodup {members : List (String × Json)} (h : (members.map (·.1)).Nodup) :
    ofMembers members = members := by
  rw [ofMembers, merge_of_nodup (by simpa using h), List.nil_append]

end Object

theorem itemsWithin?_drafts {depth : Nat} {items : List Json}
    (h : ∀ j ∈ items, j.draft.within? depth = some j) :
    Draft.itemsWithin? depth (itemDrafts items) = some items := by
  induction items with
  | nil => rfl
  | cons j rest ih =>
    rw [itemDrafts, Draft.itemsWithin?, h j List.mem_cons_self,
      ih fun i hi ↦ h i (List.mem_cons_of_mem j hi)]
    rfl

theorem membersWithin?_drafts {depth : Nat} {members : List (String × Json)}
    (h : ∀ m ∈ members, m.2.draft.within? depth = some m.2) :
    Draft.membersWithin? depth (memberDrafts members) = some members := by
  induction members with
  | nil => rfl
  | cons m rest ih =>
    obtain ⟨key, j⟩ := m
    have hj : j.draft.within? depth = some j := h (key, j) List.mem_cons_self
    rw [memberDrafts, Draft.membersWithin?, string?_pieces, hj,
      ih fun i hi ↦ h i (List.mem_cons_of_mem _ hi)]
    rfl

/-- The draft of a portable value has that value. -/
theorem within?_draft {depth : Nat} {j : Json} (h : Portable depth j) :
    j.draft.within? depth = some j := by
  induction h with
  | null => rfl
  | bool b => rfl
  | int h => rw [draft, Draft.within?, Number.number?_int h, Option.map_some]
  | str s => rw [draft, Draft.within?, string?_pieces, Option.map_some]
  | arr _ ih => rw [draft, Draft.within?, itemsWithin?_drafts ih, Option.map_some]
  | obj keys _ ih =>
    rw [draft, Draft.within?, membersWithin?_drafts ih, Option.map_some,
      Object.ofMembers_of_nodup keys]

theorem within?_of_mem_itemDrafts {depth : Nat} {items values : List Json}
    (h : Draft.itemsWithin? depth (itemDrafts items) = some values) {j : Json} (hj : j ∈ items) :
    ∃ value, j.draft.within? depth = some value := by
  induction items generalizing values with
  | nil => cases hj
  | cons i rest ih =>
    obtain ⟨value, hvalue, hrest⟩ := Option.bind_eq_some_iff.1 h
    obtain ⟨others, hothers, -⟩ := Option.bind_eq_some_iff.1 hrest
    rcases List.mem_cons.1 hj with rfl | hj
    · exact ⟨value, hvalue⟩
    · exact ih hothers hj

theorem within?_of_mem_memberDrafts {depth : Nat} {members values : List (String × Json)}
    (h : Draft.membersWithin? depth (memberDrafts members) = some values) {m : String × Json}
    (hm : m ∈ members) : ∃ value, m.2.draft.within? depth = some value := by
  induction members generalizing values with
  | nil => cases hm
  | cons first rest ih =>
    obtain ⟨key, j⟩ := first
    obtain ⟨_, -, hvalues⟩ := Option.bind_eq_some_iff.1 h
    obtain ⟨value, hvalue, hrest⟩ := Option.bind_eq_some_iff.1 hvalues
    obtain ⟨others, hothers, -⟩ := Option.bind_eq_some_iff.1 hrest
    rcases List.mem_cons.1 hm with rfl | hm
    · exact ⟨value, hvalue⟩
    · exact ih hothers hm

/-- A value is not read if it nests deeper than is asked for. -/
theorem portable_of_within? {n depth : Nat} {j value : Json} (h : Portable n j)
    (hvalue : j.draft.within? depth = some value) : Portable depth j := by
  induction h generalizing depth value with
  | null => exact .null
  | bool b => exact .bool b
  | int h => exact .int h
  | str s => exact .str s
  | arr _ ih =>
    cases depth with
    | zero => cases hvalue
    | succ depth =>
      obtain ⟨values, hvalues, -⟩ := Option.map_eq_some_iff.1 hvalue
      refine .arr fun j hj ↦ ?_
      obtain ⟨value, hvalue⟩ := within?_of_mem_itemDrafts hvalues hj
      exact ih j hj hvalue
  | obj keys _ ih =>
    cases depth with
    | zero => cases hvalue
    | succ depth =>
      obtain ⟨values, hvalues, -⟩ := Option.map_eq_some_iff.1 hvalue
      refine .obj keys fun m hm ↦ ?_
      obtain ⟨value, hvalue⟩ := within?_of_mem_memberDrafts hvalues hm
      exact ih m hm hvalue

theorem portable_of_ofText? {n : Nat} {j value : Json} (h : Portable n j)
    (hvalue : ofText? j.text = some value) : Portable maxDepth j := by
  rw [ofText?, ofText?_draft h] at hvalue
  exact portable_of_within? h hvalue

theorem text_ne_blank {members : List (String × Json)} :
    Text.allBlank (Json.obj members).text = false := by
  rw [text, Text.allBlank, String.toList_ofList, chars]
  rfl

theorem mapM_memberDrafts (members : List (String × Json)) :
    (memberDrafts members).mapM (fun (key, d) ↦ (Piece.string? key).map (·, d)) =
      some (members.map fun m ↦ (m.1, m.2.draft)) := by
  induction members with
  | nil => rfl
  | cons m rest ih =>
    obtain ⟨key, j⟩ := m
    rw [memberDrafts, List.mapM_cons, ih]
    simp only [string?_pieces, Option.map_some]
    rfl

theorem fields?_draft (fields : List (List String)) (members : List (String × Json)) :
    (Json.obj members).draft.fields? fields =
      slots? fields (members.map fun m ↦ (m.1, m.2.draft)) := by
  rw [draft, Draft.fields?, mapM_memberDrafts]
  rfl

theorem natBelow?_nat {bound n : Nat} (h : n < bound) : (nat n).natBelow? bound = some n := by
  have hn : (0 : Int) ≤ n ∧ (n : Int) < bound := by omega
  rw [nat, natBelow?, if_pos hn, Int.toNat_natCast]

theorem eq_nat_of_natBelow? {j : Json} {bound n : Nat} (h : j.natBelow? bound = some n) :
    j = nat n ∧ n < bound := by
  unfold natBelow? at h
  split at h
  · rename_i i
    split at h
    · rename_i hi
      obtain rfl := Option.some.inj h
      refine ⟨?_, by omega⟩
      rw [nat, Int.toNat_of_nonneg hi.1]
    · cases h
  · cases h

theorem value?_nat {n : Nat} (h : n < UInt64.size) : (nat n).draft.value? = some (nat n) :=
  within?_draft (.int ⟨by omega, by omega⟩)

theorem list?_map {α : Type} {item? : Json → Option α} {f : α → Json} {l : List α}
    (h : ∀ a ∈ l, item? (f a) = some a) : (Json.arr (l.map f)).list? item? = some l := by
  rw [list?]
  induction l with
  | nil => rfl
  | cons a l ih =>
    rw [List.map_cons, List.mapM_cons, h a List.mem_cons_self,
      ih fun b hb ↦ h b (List.mem_cons_of_mem a hb)]
    rfl

theorem list?_strings (l : List String) : (strings l).list? string? = some l :=
  list?_map fun _ _ ↦ rfl

theorem Portable.member {depth : Nat} {members : List (String × Json)} {m : String × Json}
    (h : Portable depth (.obj members)) (hm : m ∈ members) : Portable (depth - 1) m.2 := by
  cases h with
  | obj _ hall => exact hall m hm

end TypedLoader.Json
