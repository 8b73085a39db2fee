import OntoWorlds.Json.Doc
import OntoWorlds.Proofs.Json.Spelling

/-!
# OntoWorlds — documents and their tokens

The syntax of JSON above its tokens: which trees are whole documents, and the tokens they are
written with. A fault in a tree marks a place where the text stopped being JSON, so a whole document
has none.

* `Doc.IsWhole`, `Doc.tokens` — whole documents, and their tokens.
* `Doc.IsWrittenAs` — the texts of a document: its tokens, spelled and laid out in any way.
* `parse_tokens` — the tokens of a whole document are parsed to it; the depth that a text is parsed
  with is always enough.
* `eq_tokens_of_parse` — a whole document is only parsed from its tokens.
* `isWrittenAs_iff` — a text is one of the document exactly if it is parsed to it.
-/

namespace OntoWorlds.Json

/-- A token that is a value by itself. -/
def Token.isScalar : Token → Bool
  | null | bool _ | number _ | text _ => Bool.true
  | _ => Bool.false

mutual

/-- The tree is a document: every part of it ends where it should. -/
def Doc.IsWhole : Doc → Prop
  | .atom none => False
  | .atom (some t) => t.isScalar = true
  | .array items => items.IsWhole
  | .object members => members.IsWhole

/-- Every item is whole, and the array closes. -/
def Items.IsWhole : Items → Prop
  | .closed => True
  | .cut _ => False
  | .item d rest => d.IsWhole ∧ rest.IsWhole

/-- Every member is whole, and the object closes. -/
def Members.IsWhole : Members → Prop
  | .closed => True
  | .cut _ => False
  | .stray _ => False
  | .member _ d rest => d.IsWhole ∧ rest.IsWhole

end

mutual

/-- The tokens that a whole document is written with. -/
def Doc.tokens : Doc → List Token
  | .atom head => head.toList
  | .array items => .openBracket :: items.tokens
  | .object members => .openBrace :: members.tokens

/-- The tokens behind the opening bracket. -/
def Items.tokens : Items → List Token
  | .closed => [.closeBracket]
  | .cut _ => []
  | .item d rest => d.tokens ++ rest.tokensBehind

/-- The tokens behind an item. -/
def Items.tokensBehind : Items → List Token
  | .closed => [.closeBracket]
  | .cut _ => []
  | .item d rest => .comma :: (d.tokens ++ rest.tokensBehind)

/-- The tokens behind the opening brace. -/
def Members.tokens : Members → List Token
  | .closed => [.closeBrace]
  | .cut _ => []
  | .stray _ => []
  | .member key d rest => .text key :: .colon :: (d.tokens ++ rest.tokensBehind)

/-- The tokens behind a member. -/
def Members.tokensBehind : Members → List Token
  | .closed => [.closeBrace]
  | .cut _ => []
  | .stray _ => []
  | .member key d rest => .comma :: .text key :: .colon :: (d.tokens ++ rest.tokensBehind)

end

/-- The text is one of the whole document: any spelling of its tokens, in any layout. -/
def Doc.IsWrittenAs (d : Doc) (text : String) : Prop :=
  d.IsWhole ∧ IsLaidOut d.tokens text.toList

/-! ## Skipping -/

/-- Only a token that is a value by itself can be skipped as one. -/
theorem skipToken_eq_none_iff (t : Token) : skipToken (some t) = none ↔ t.isScalar = true := by
  cases t <;> simp [skipToken, Token.isScalar]

mutual

/-- Skipping meets no fault exactly in a whole document. -/
theorem Doc.skip_eq_none_iff : (d : Doc) → (d.skip = none ↔ d.IsWhole)
  | .atom none => by simp [Doc.skip, Doc.IsWhole, skipToken]
  | .atom (some t) => by rw [Doc.skip, Doc.IsWhole, skipToken_eq_none_iff]
  | .array items => by rw [Doc.skip, Doc.IsWhole, items.skip_eq_none_iff]
  | .object members => by rw [Doc.skip, Doc.IsWhole, members.skip_eq_none_iff]

theorem Items.skip_eq_none_iff : (items : Items) → (items.skip = none ↔ items.IsWhole)
  | .closed => by simp [Items.skip, Items.IsWhole]
  | .cut f => by simp [Items.skip, Items.IsWhole]
  -- a member behind others has a fault only if it or the rest has one
  | .item d rest => by
    rw [Items.skip, Items.IsWhole, ← d.skip_eq_none_iff, ← rest.skip_eq_none_iff]
    cases d.skip <;> simp

theorem Members.skip_eq_none_iff : (members : Members) → (members.skip = none ↔ members.IsWhole)
  | .closed => by simp [Members.skip, Members.IsWhole]
  | .cut f => by simp [Members.skip, Members.IsWhole]
  | .stray head => by simp [Members.skip, Members.IsWhole]
  | .member key d rest => by
    rw [Members.skip, Members.IsWhole, ← d.skip_eq_none_iff, ← rest.skip_eq_none_iff]
    cases d.skip <;> simp

end

/-! ## Parsing what was written -/

/-- A whole document starts with a token, and not with a closing bracket. -/
theorem Doc.IsWhole.exists_head {d : Doc} (h : d.IsWhole) :
    ∃ t ts, d.tokens = t :: ts ∧ t ≠ .closeBracket := by
  match d, h with
  | .atom (some t), h =>
    refine ⟨t, [], rfl, ?_⟩
    rintro rfl
    cases h
  | .array items, _ => exact ⟨.openBracket, _, rfl, by decide⟩
  | .object members, _ => exact ⟨.openBrace, _, rfl, by decide⟩

/-- An array that does not close at once is parsed item by item. -/
theorem Doc.parse_openBracket {ts : List Token} (h : ∃ t us, ts = t :: us ∧ t ≠ .closeBracket)
    (depth : Nat) : Doc.parse (depth + 1) (.openBracket :: ts) =
      (.array (Items.parse depth ts).1, (Items.parse depth ts).2) := by
  obtain ⟨t, us, rfl, ht⟩ := h
  cases t <;> first | exact absurd rfl ht | rfl

/-- A token that is a value by itself is parsed to that value. -/
theorem Doc.parse_scalar {t : Token} (h : t.isScalar = true) (depth : Nat) (ts : List Token) :
    Doc.parse (depth + 1) (t :: ts) = (.atom (some t), ts) := by
  cases t <;> first | cases h; done | rfl

/-- The last item of an array stands before the closing bracket. -/
theorem Items.parse_closed {d : Doc} {ts rest : List Token} {depth : Nat}
    (h : Doc.parse depth ts = (d, .closeBracket :: rest)) :
    Items.parse (depth + 1) ts = (.item d .closed, rest) := by
  rw [Items.parse, h]

/-- Any other item stands before a comma, and parsing goes on behind it. -/
theorem Items.parse_item {d : Doc} {ts rest : List Token} {depth : Nat}
    (h : Doc.parse depth ts = (d, .comma :: rest)) :
    Items.parse (depth + 1) ts =
      (.item d (Items.parse depth rest).1, (Items.parse depth rest).2) := by
  rw [Items.parse, h]

/-- The last member of an object stands before the closing brace. -/
theorem Members.parse_closed {key : Option String} {d : Doc} {ts rest : List Token} {depth : Nat}
    (h : Doc.parse depth ts = (d, .closeBrace :: rest)) :
    Members.parse (depth + 1) (.text key :: .colon :: ts) = (.member key d .closed, rest) := by
  rw [Members.parse, h]

/-- Any other member stands before a comma. -/
theorem Members.parse_member {key : Option String} {d : Doc} {ts rest : List Token} {depth : Nat}
    (h : Doc.parse depth ts = (d, .comma :: rest)) :
    Members.parse (depth + 1) (.text key :: .colon :: ts) =
      (.member key d (Members.parse depth rest).1, (Members.parse depth rest).2) := by
  rw [Members.parse, h]

mutual

/-- The tokens of a whole document are parsed to the document, at any depth from their number on. -/
theorem Doc.parse_tokens : (d : Doc) → d.IsWhole → (rest : List Token) → {depth : Nat} →
    d.tokens.length ≤ depth → Doc.parse depth (d.tokens ++ rest) = (d, rest)
  | .atom (some t), h, rest, depth + 1, _ => Doc.parse_scalar h depth rest
  | .array .closed, _, rest, depth + 1, _ => rfl
  | .array (.item d items), h, rest, depth + 1, hdepth => by
    -- an item does not start with a closing bracket, so the array is parsed item by item
    have hhead : ∃ t us, (Items.item d items).tokens ++ rest = t :: us ∧ t ≠ .closeBracket := by
      obtain ⟨t, ts, heq, ht⟩ := Doc.IsWhole.exists_head h.1
      exact ⟨t, _, by rw [Items.tokens, heq]; rfl, ht⟩
    rw [Doc.tokens, List.cons_append, Doc.parse_openBracket hhead,
      Items.parse_tokens (.item d items) h nofun rest (Nat.le_of_succ_le_succ hdepth)]
  | .object .closed, _, rest, depth + 1, _ => rfl
  | .object (.member key d members), h, rest, depth + 1, hdepth => by
    have hmembers := Members.parse_tokens (.member key d members) h nofun rest
      (Nat.le_of_succ_le_succ hdepth)
    have hopen : Doc.parse (depth + 1)
        (.openBrace :: ((Members.member key d members).tokens ++ rest)) =
          (.object (Members.parse depth ((Members.member key d members).tokens ++ rest)).1,
            (Members.parse depth ((Members.member key d members).tokens ++ rest)).2) := rfl
    rw [Doc.tokens, List.cons_append, hopen, hmembers]

/-- So are the tokens of items that do not close at once. -/
theorem Items.parse_tokens : (items : Items) → items.IsWhole → items ≠ .closed →
    (rest : List Token) → {depth : Nat} → items.tokens.length ≤ depth →
      Items.parse depth (items.tokens ++ rest) = (items, rest)
  | .item d .closed, h, _, rest, depth, hdepth => by
    rw [Items.tokens, List.length_append] at hdepth
    -- the closing bracket pays for the last step
    obtain ⟨depth, rfl⟩ := Nat.exists_eq_add_of_le' (Nat.le_trans (Nat.le_add_left ..) hdepth)
    rw [Items.tokens, List.append_assoc]
    exact Items.parse_closed (Doc.parse_tokens d h.1 _ (Nat.le_of_add_le_add_right hdepth))
  | .item d (.item e items), h, _, rest, depth, hdepth => by
    -- the comma behind the first item pays for the step into the next one
    have htokens : (Items.item d (.item e items)).tokens =
        d.tokens ++ .comma :: (Items.item e items).tokens := rfl
    rw [htokens, List.length_append, List.length_cons] at hdepth
    obtain ⟨depth, rfl⟩ := Nat.exists_eq_add_of_le' (show 1 ≤ depth by omega)
    have hfirst := Doc.parse_tokens d h.1 (.comma :: ((Items.item e items).tokens ++ rest))
      (show _ ≤ depth by omega)
    rw [htokens, List.append_assoc, List.cons_append, Items.parse_item hfirst,
      Items.parse_tokens (.item e items) h.2 nofun rest (by omega)]

/-- So are the tokens of members that do not close at once. -/
theorem Members.parse_tokens : (members : Members) → members.IsWhole → members ≠ .closed →
    (rest : List Token) → {depth : Nat} → members.tokens.length ≤ depth →
      Members.parse depth (members.tokens ++ rest) = (members, rest)
  | .member key d .closed, h, _, rest, depth, hdepth => by
    have htokens : (Members.member key d .closed).tokens =
        .text key :: .colon :: (d.tokens ++ [.closeBrace]) := rfl
    rw [htokens, List.length_cons, List.length_cons, List.length_append] at hdepth
    obtain ⟨depth, rfl⟩ := Nat.exists_eq_add_of_le' (show 1 ≤ depth by omega)
    rw [htokens, List.cons_append, List.cons_append, List.append_assoc]
    exact Members.parse_closed (Doc.parse_tokens d h.1 _ (by omega))
  | .member key d (.member key' e members), h, _, rest, depth, hdepth => by
    have htokens : (Members.member key d (.member key' e members)).tokens =
        .text key :: .colon :: (d.tokens ++ .comma :: (Members.member key' e members).tokens) := rfl
    rw [htokens, List.length_cons, List.length_cons, List.length_append, List.length_cons] at hdepth
    obtain ⟨depth, rfl⟩ := Nat.exists_eq_add_of_le' (show 1 ≤ depth by omega)
    have hfirst := Doc.parse_tokens d h.1
      (.comma :: ((Members.member key' e members).tokens ++ rest)) (show _ ≤ depth by omega)
    rw [htokens, List.cons_append, List.cons_append, List.append_assoc, List.cons_append,
      Members.parse_member hfirst, Members.parse_tokens (.member key' e members) h.2 nofun rest
        (by omega)]

end

/-! ## Writing what was parsed -/

/-- Behind an item, the tokens of more items follow a comma. -/
theorem Items.tokensBehind_eq {items : Items} (h : items.IsWhole) (hne : items ≠ .closed) :
    items.tokensBehind = .comma :: items.tokens := by
  cases items with
  | closed => exact absurd rfl hne
  | cut => cases h
  | item d rest => rfl

/-- Behind a member, the tokens of more members follow a comma. -/
theorem Members.tokensBehind_eq {members : Members} (h : members.IsWhole)
    (hne : members ≠ .closed) : members.tokensBehind = .comma :: members.tokens := by
  cases members with
  | closed => exact absurd rfl hne
  | cut | stray => cases h
  | member key d rest => rfl

mutual

/-- A whole document is parsed from its own tokens only. -/
theorem Doc.eq_tokens_of_parse : {depth : Nat} → {ts rest : List Token} → {d : Doc} →
    Doc.parse depth ts = (d, rest) → d.IsWhole → ts = d.tokens ++ rest
  | 0, _, _, _, h, hd => by
    cases h
    cases hd
  | depth + 1, ts, rest, d, h, hd => by
    rw [Doc.parse.eq_def] at h
    split at h
    case h_1 heq => cases heq
    -- no token is left, or too little depth: the text is cut off
    case h_2 =>
      cases h
      cases hd
    case h_3 heq =>
      -- an array: it closes at once, it is cut off, or items follow
      obtain rfl := Nat.succ.inj heq
      split at h
      · cases h
        rfl
      · cases h
        cases hd
      · cases h
        exact congrArg (.openBracket :: ·) (Items.eq_tokens_of_parse rfl hd).2
    -- an object: it closes at once, or members follow
    case h_4 heq =>
      obtain rfl := Nat.succ.inj heq
      split at h
      · cases h
        rfl
      · cases h
        exact congrArg (.openBrace :: ·) (Members.eq_tokens_of_parse rfl hd).2
    -- any other token is a value by itself
    case h_5 =>
      cases h
      rfl

/-- Items that do not close at once are parsed from their own tokens only. -/
theorem Items.eq_tokens_of_parse : {depth : Nat} → {ts rest : List Token} → {items : Items} →
    Items.parse depth ts = (items, rest) → items.IsWhole →
      items ≠ .closed ∧ ts = items.tokens ++ rest
  | 0, _, _, _, h, hd => by
    cases h
    cases hd
  | depth + 1, ts, rest, items, h, hd => by
    rw [Items.parse] at h
    rcases hfirst : Doc.parse depth ts with ⟨d, us⟩
    simp only [hfirst] at h
    split at h
    -- the last item, before the closing bracket
    · cases h
      refine ⟨nofun, ?_⟩
      rw [Doc.eq_tokens_of_parse hfirst hd.1, Items.tokens, List.append_assoc]
      rfl
    -- an item before a comma: the rest comes from its own tokens as well
    · next behind =>
      rcases hmore : Items.parse depth behind with ⟨more, vs⟩
      rw [hmore] at h
      cases h
      obtain ⟨hne, rfl⟩ := Items.eq_tokens_of_parse hmore hd.2
      refine ⟨nofun, ?_⟩
      rw [Doc.eq_tokens_of_parse hfirst hd.1, Items.tokens, Items.tokensBehind_eq hd.2 hne,
        List.append_assoc]
      rfl
    -- neither a comma nor a bracket follows, so the array is cut off
    · cases h
      cases hd.2

/-- Members that do not close at once are parsed from their own tokens only. -/
theorem Members.eq_tokens_of_parse : {depth : Nat} → {ts rest : List Token} → {members : Members} →
    Members.parse depth ts = (members, rest) → members.IsWhole →
      members ≠ .closed ∧ ts = members.tokens ++ rest
  | 0, _, _, _, h, hd => by
    cases h
    cases hd
  | depth + 1, ts, rest, members, h, hd => by
    rw [Members.parse.eq_def] at h
    split at h
    case h_1 heq => cases heq
    case h_2 key ts heq =>
      obtain rfl := Nat.succ.inj heq
      rcases hfirst : Doc.parse depth ts with ⟨d, us⟩
      simp only [hfirst] at h
      split at h
      -- the last member
      · cases h
        refine ⟨nofun, ?_⟩
        rw [Doc.eq_tokens_of_parse hfirst hd.1, Members.tokens, List.cons_append, List.cons_append,
          List.append_assoc]
        rfl
      -- a member before a comma
      · next behind =>
        rcases hmore : Members.parse depth behind with ⟨more, vs⟩
        rw [hmore] at h
        cases h
        obtain ⟨hne, rfl⟩ := Members.eq_tokens_of_parse hmore hd.2
        refine ⟨nofun, ?_⟩
        rw [Doc.eq_tokens_of_parse hfirst hd.1, Members.tokens, Members.tokensBehind_eq hd.2 hne,
          List.cons_append, List.cons_append, List.append_assoc]
        rfl
      · cases h
        cases hd.2
    case h_3 =>
      cases h
      cases hd.1
    case h_4 =>
      cases h
      cases hd.1
    case h_5 =>
      cases h
      cases hd

end

/-! ## Texts of a document -/

/-- The tokens behind an item are those of the rest, maybe with a comma in front. -/
theorem Items.tokensBehind_eq_or (items : Items) :
    items.tokensBehind = items.tokens ∨ items.tokensBehind = .comma :: items.tokens := by
  cases items with
  | closed | cut => exact .inl rfl
  | item d rest => exact .inr rfl

theorem Members.tokensBehind_eq_or (members : Members) :
    members.tokensBehind = members.tokens ∨ members.tokensBehind = .comma :: members.tokens := by
  cases members with
  | closed | cut | stray => exact .inl rfl
  | member key d rest => exact .inr rfl

/-- Tokens that can be told apart in any text of theirs: none is broken and no numbers meet. -/
def Readable (ts : List Token) : Prop := Separated ts ∧ ∀ t ∈ ts, t.isBroken = false

theorem readable_nil : Readable [] := ⟨trivial, nofun⟩

/-- A token can be put in front if it is not broken and no number meets another. -/
theorem Readable.cons {t : Token} {ts : List Token} (hbroken : t.isBroken = false)
    (hnumber : t.isNumber = true → ∀ u ∈ ts.head?, u.isNumber = false) (h : Readable ts) :
    Readable (t :: ts) :=
  ⟨⟨hnumber, h.1⟩, List.forall_mem_cons.mpr ⟨hbroken, h.2⟩⟩

theorem Readable.tail {t : Token} {ts : List Token} (h : Readable (t :: ts)) : Readable ts :=
  ⟨h.1.2, (List.forall_mem_cons.mp h.2).2⟩

/-- No number follows an item. -/
theorem Items.head_tokensBehind {items : Items} (h : items.IsWhole) (ts : List Token) :
    ∀ u ∈ (items.tokensBehind ++ ts).head?, u.isNumber = false := by
  intro u hu
  match items, h with
  | .closed, _ | .item _ _, _ => cases hu; rfl

/-- No number follows a member. -/
theorem Members.head_tokensBehind {members : Members} (h : members.IsWhole) (ts : List Token) :
    ∀ u ∈ (members.tokensBehind ++ ts).head?, u.isNumber = false := by
  intro u hu
  match members, h with
  | .closed, _ | .member _ _ _, _ => cases hu; rfl

mutual

/-- The tokens of a whole document are readable before any that are. -/
theorem Doc.readable_tokens : (d : Doc) → d.IsWhole → {ts : List Token} → Readable ts →
    (∀ u ∈ ts.head?, u.isNumber = false) → Readable (d.tokens ++ ts)
  | .atom (some t), h, ts, hts, hhead => by
    -- a value of one token is not broken
    refine .cons ?_ (fun _ => hhead) hts
    cases t <;> first | cases h; done | rfl
  | .array items, h, ts, hts, _ => by
    have hbehind := items.readable_tokensBehind h hts
    refine .cons rfl nofun ?_
    -- a comma before the tokens does not matter to what stands behind it
    obtain heq | heq := items.tokensBehind_eq_or
    · exact heq ▸ hbehind
    · rw [heq] at hbehind
      exact hbehind.tail
  | .object members, h, ts, hts, _ => by
    have hbehind := members.readable_tokensBehind h hts
    refine .cons rfl nofun ?_
    obtain heq | heq := members.tokensBehind_eq_or
    · exact heq ▸ hbehind
    · rw [heq] at hbehind
      exact hbehind.tail

theorem Items.readable_tokensBehind : (items : Items) → items.IsWhole → {ts : List Token} →
    Readable ts → Readable (items.tokensBehind ++ ts)
  | .closed, _, _, hts => .cons rfl nofun hts
  | .item d rest, h, ts, hts => by
    have hrest := rest.readable_tokensBehind h.2 hts
    rw [Items.tokensBehind, List.cons_append, List.append_assoc]
    exact .cons rfl nofun (d.readable_tokens h.1 hrest (rest.head_tokensBehind h.2 ts))

theorem Members.readable_tokensBehind : (members : Members) → members.IsWhole →
    {ts : List Token} → Readable ts → Readable (members.tokensBehind ++ ts)
  | .closed, _, _, hts => .cons rfl nofun hts
  | .member key d rest, h, ts, hts => by
    have hrest := rest.readable_tokensBehind h.2 hts
    rw [Members.tokensBehind, List.cons_append, List.cons_append, List.cons_append,
      List.append_assoc]
    -- the comma, the key and the colon stand before the value
    exact .cons rfl nofun (.cons rfl nofun (.cons rfl nofun
      (d.readable_tokens h.1 hrest (rest.head_tokensBehind h.2 ts))))

end

/-- A text is one of a whole document exactly if it is read as the tokens of the document. -/
theorem isWrittenAs_iff_tokens (d : Doc) (text : String) :
    d.IsWrittenAs text ↔ d.IsWhole ∧ tokens text = d.tokens := by
  refine and_congr_right fun hd => ?_
  have hreadable : Readable d.tokens := by
    simpa using d.readable_tokens hd readable_nil nofun
  exact (tokens_eq_iff hreadable.1 hreadable.2).symm

/-- **A text is one of a whole document exactly if it is parsed to the document**, with no token
left behind it. -/
theorem isWrittenAs_iff (d : Doc) (text : String) :
    d.IsWrittenAs text ↔ d.IsWhole ∧ Doc.ofTokens (tokens text) = (d, []) := by
  rw [isWrittenAs_iff_tokens]
  refine and_congr_right fun hd => ⟨fun h => ?_, fun h => ?_⟩
  -- the depth of a text is twice the number of its tokens
  · have hparse := d.parse_tokens hd [] (show _ ≤ 2 * d.tokens.length + 1 by omega)
    rw [List.append_nil] at hparse
    rw [h, Doc.ofTokens, hparse]
  · have htokens := Doc.eq_tokens_of_parse h hd
    rwa [List.append_nil] at htokens

/-- A text is one of at most one document. -/
theorem Doc.IsWrittenAs.eq {d e : Doc} {text : String} (hd : d.IsWrittenAs text)
    (he : e.IsWrittenAs text) : d = e :=
  have hparse := ((isWrittenAs_iff d text).mp hd).2.symm.trans ((isWrittenAs_iff e text).mp he).2
  congrArg Prod.fst hparse

end OntoWorlds.Json
