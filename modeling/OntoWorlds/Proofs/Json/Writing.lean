import OntoWorlds.Json.Value
import OntoWorlds.Proofs.Json.Parsing

/-!
# OntoWorlds — written values

The text of a value is JSON: it writes the document that the value stands for, in one of the many
texts that the document has.

* `Value.doc` — the document of a value.
* `isSpelled_quoted` — a quoted string spells its characters, whatever they are.
* `isWrittenAs_document` — the text of a value is one of its document.
-/

namespace OntoWorlds.Json

/-! ## The document of a value -/

mutual

/-- The document that a value is written as. -/
def Value.doc : Value → Doc
  | .null => .atom (some .null)
  | .bool b => .atom (some (.bool b))
  | .number n => .atom (some (.number ⟨false, Nat.toDigits 10 n, [], none⟩))
  | .text s => .atom (some (.text (some s)))
  | .array items => .array items.docs
  | .object entries => .object entries.docs

/-- The items of an array that is written. -/
def Values.docs : Values → Items
  | .nil => .closed
  | .cons v rest => .item v.doc rest.docs

/-- The members of an object that is written. -/
def Entries.docs : Entries → Members
  | .nil => .closed
  | .cons key v rest => .member (some key) v.doc rest.docs

end

mutual

/-- What is written is a whole document. -/
theorem Value.isWhole_doc : (v : Value) → v.doc.IsWhole
  | .null | .bool _ | .number _ | .text _ => rfl
  | .array items => items.isWhole_docs
  | .object entries => entries.isWhole_docs

theorem Values.isWhole_docs : (vs : Values) → vs.docs.IsWhole
  | .nil => trivial
  | .cons v rest => ⟨v.isWhole_doc, rest.isWhole_docs⟩

theorem Entries.isWhole_docs : (es : Entries) → es.docs.IsWhole
  | .nil => trivial
  | .cons _ v rest => ⟨v.isWhole_doc, rest.isWhole_docs⟩

end

/-! ## Strings -/

/-- A digit is read as the number it was written for. -/
theorem hexDigit?_hexDigit : ∀ n < 16, hexDigit? (hexDigit n) = some n := by decide

/-- The code of a control character is read as it was written. -/
theorem hexCode?_hexDigit {n : Nat} (h : n < 32) :
    hexCode? '0' '0' (hexDigit (n / 16)) (hexDigit (n % 16)) = some n := by
  have hzero : hexDigit? '0' = some 0 := rfl
  simp only [hexCode?, hzero, hexDigit?_hexDigit (n / 16) (by omega),
    hexDigit?_hexDigit (n % 16) (by omega), Option.bind_eq_bind, Option.bind_some]
  exact congrArg some (by omega)

/-- A code below the surrogates is that of a character. -/
theorem Piece.ofCode_toNat {c : Char} (h : c.toNat < 32) : Piece.ofCode c.toNat = .char c := by
  have hlead : isLead c.toNat = false := by simp [isLead]; omega
  have htrail : isTrail c.toNat = false := by simp [isTrail]; omega
  rw [Piece.ofCode, hlead, htrail, Char.ofNat_toNat]
  rfl

/-- An escaped character spells the character. -/
theorem isSpelled_escape (c : Char) : (Piece.char c).IsSpelled (escape c).toList := by
  rw [escape.eq_def]
  split
  case h_8 hquote hslash _ _ _ _ _ =>
    -- no letter stands for the character: it has a code or stands for itself
    split
    · next hcontrol =>
      have htext (a b : Char) :
          ("\\u00" ++ String.ofList [a, b]).toList = ['\\', 'u', '0', '0', a, b] := by simp
      rw [htext, ← Piece.ofCode_toNat hcontrol]
      exact .code (hexCode?_hexDigit hcontrol)
    · next hcontrol =>
      rw [String.toList_singleton]
      exact .plain hquote hslash (Nat.not_lt.mp hcontrol)
  -- the other characters have a letter each
  all_goals exact .escape rfl

/-- Escaped characters spell the characters one by one. -/
theorem piecesSpelled_escapeAll (cs : List Char) :
    PiecesSpelled (cs.map .char) (escapeAll cs).toList := by
  induction cs with
  | nil => exact .nil
  | cons c cs ih =>
    rw [escapeAll, String.toList_append]
    exact .cons (isSpelled_escape c) ih

/-- Characters join to themselves: none of them is half of a surrogate pair. -/
theorem Piece.join_map_char (cs : List Char) : Piece.join (cs.map .char) = some cs := by
  induction cs with
  | nil => rfl
  | cons c cs ih => rw [List.map_cons, Piece.join, ih, Option.map_some]

/-- A quoted string spells its characters, whatever they are. -/
theorem isSpelled_quoted (s : String) : (Token.text (some s)).IsSpelled (quoted s).toList := by
  have htext := Token.IsSpelled.text (piecesSpelled_escapeAll s.toList)
  rw [Piece.join_map_char, Option.map_some, String.ofList_toList] at htext
  rw [quoted, String.toList_append, String.toList_append]
  exact htext

/-! ## Numbers -/

/-- Only zero starts with the digit zero. -/
theorem eq_zero_of_head_toDigits {n : Nat} (h : (Nat.toDigits 10 n).head? = some '0') : n = 0 := by
  induction n using Nat.strongRecOn with
  | ind n ih =>
    obtain hlt | hge := Nat.lt_or_ge n 10
    -- a number of one digit, or one more digit behind a smaller number
    · rw [Nat.toDigits_of_lt_base hlt] at h
      have hdigit : ∀ k < 10, k.digitChar = '0' → k = 0 := by decide
      exact hdigit n hlt (Option.some.inj h)
    · obtain ⟨d, ds, hds⟩ : ∃ d ds, Nat.toDigits 10 (n / 10) = d :: ds :=
        List.exists_cons_of_ne_nil Nat.toDigits_ne_nil
      rw [Nat.toDigits_of_base_le (by decide) hge, hds] at h
      have hzero := ih (n / 10) (by omega) (by rw [hds]; exact h)
      omega

/-- A number in decimals spells itself. -/
theorem isSpelled_toString (n : Nat) :
    (Token.number ⟨false, Nat.toDigits 10 n, [], none⟩).IsSpelled (toString n).toList := by
  have htext : (toString n).toList = Nat.toDigits 10 n ++ ([] ++ []) := by
    rw [List.append_nil, List.append_nil]
    exact Nat.toList_repr
  rw [htext]
  refine .positive rfl ⟨⟨Nat.toDigits_ne_nil, ?_⟩, ?_, .absent, .absent⟩
  -- it has digits only, and a leading zero only if it is zero
  · exact fun c hc => Nat.isDigit_of_mem_toDigits (by decide) (by decide) hc
  · intro hzero
    obtain rfl := eq_zero_of_head_toDigits hzero
    rfl

/-! ## Values -/

/-- Blanks may stand before any text of tokens. -/
theorem IsLaidOut.blanks {bs rest : List Char} {ts : List Token} (hbs : IsBlank bs)
    (h : IsLaidOut ts rest) : IsLaidOut ts (bs ++ rest) := by
  induction bs with
  | nil => exact h
  | cons b bs ih =>
    obtain ⟨hb, hbs⟩ := List.forall_mem_cons.mp hbs
    exact (ih hbs).blank_cons hb

/-- A line feed and its indentation are blank. -/
theorem isBlank_newline (level : Nat) : IsBlank (newline level).toList := by
  intro c hc
  rw [newline, String.toList_append, List.mem_append] at hc
  obtain hc | hc := hc
  · obtain rfl : c = '\n' := by simpa using hc
    rfl
  · rw [String.toList_ofList] at hc
    obtain rfl := List.eq_of_mem_replicate hc
    rfl

/-- A member on a line of its own, before what is laid out behind it. -/
theorem isLaidOut_member (key : String) {ts : List Token} {rest : List Char}
    (h : IsLaidOut ts rest) (level : Nat) :
    IsLaidOut (.text (some key) :: .colon :: ts)
      ((newline (level + 1)).toList ++ ((quoted key).toList ++ (": ".toList ++ rest))) := by
  have hcolon : IsLaidOut (.colon :: ts) ([':'] ++ ' ' :: rest) := .token .colon (h.blank_cons rfl)
  exact (IsLaidOut.token (isSpelled_quoted key) hcolon).blanks (isBlank_newline (level + 1))

mutual

/-- A value is laid out before whatever is laid out behind it, at any level. -/
theorem Value.isLaidOut_written : (v : Value) → (level : Nat) → {ts : List Token} →
    {rest : List Char} → IsLaidOut ts rest →
      IsLaidOut (v.doc.tokens ++ ts) ((v.written level).toList ++ rest)
  | .null, _, _, _, h => by
    rw [Value.written]
    exact .token .null h
  | .bool true, _, _, _, h => by
    rw [Value.written]
    exact .token .true h
  | .bool false, _, _, _, h => by
    rw [Value.written]
    exact .token .false h
  | .number n, _, _, _, h => by
    rw [Value.written]
    exact .token (isSpelled_toString n) h
  | .text s, _, _, _, h => by
    rw [Value.written]
    exact .token (isSpelled_quoted s) h
  | .array .nil, _, _, rest, h => by
    rw [Value.written]
    show IsLaidOut _ (['['] ++ ([']'] ++ rest))
    exact .token .openBracket (.token .closeBracket h)
  -- an item on a line of its own, then the rest up to the bracket
  | .array (.cons v vs), level, _, _, h => by
    have hbehind := vs.isLaidOut_written level h
    have hv := (v.isLaidOut_written (level + 1) hbehind).blanks (isBlank_newline (level + 1))
    rw [Value.written]
    simpa [Value.doc, Values.docs, Doc.tokens, Items.tokens] using IsLaidOut.token .openBracket hv
  | .object .nil, _, _, rest, h => by
    rw [Value.written]
    show IsLaidOut _ (['\x7b'] ++ (['\x7d'] ++ rest))
    exact .token .openBrace (.token .closeBrace h)
  -- a member on a line of its own, then the rest up to the brace
  | .object (.cons key v es), level, _, _, h => by
    have hbehind := es.isLaidOut_written level h
    have hmember := isLaidOut_member key (v.isLaidOut_written (level + 1) hbehind) level
    rw [Value.written]
    simpa [Value.doc, Entries.docs, Doc.tokens, Members.tokens] using
      IsLaidOut.token .openBrace hmember

theorem Values.isLaidOut_written : (vs : Values) → (level : Nat) → {ts : List Token} →
    {rest : List Char} → IsLaidOut ts rest →
      IsLaidOut (vs.docs.tokensBehind ++ ts) ((vs.written level).toList ++ ']' :: rest)
  | .nil, level, _, _, h => by
    rw [Values.written]
    exact (IsLaidOut.token .closeBracket h).blanks (isBlank_newline level)
  | .cons v vs, level, _, _, h => by
    have hbehind := vs.isLaidOut_written level h
    have hv := (v.isLaidOut_written (level + 1) hbehind).blanks (isBlank_newline (level + 1))
    rw [Values.written]
    simpa [Values.docs, Items.tokensBehind] using IsLaidOut.token .comma hv

theorem Entries.isLaidOut_written : (es : Entries) → (level : Nat) → {ts : List Token} →
    {rest : List Char} → IsLaidOut ts rest →
      IsLaidOut (es.docs.tokensBehind ++ ts) ((es.written level).toList ++ '\x7d' :: rest)
  | .nil, level, _, _, h => by
    rw [Entries.written]
    exact (IsLaidOut.token .closeBrace h).blanks (isBlank_newline level)
  | .cons key v es, level, _, _, h => by
    have hbehind := es.isLaidOut_written level h
    have hmember := isLaidOut_member key (v.isLaidOut_written (level + 1) hbehind) level
    rw [Entries.written]
    simpa [Entries.docs, Members.tokensBehind] using IsLaidOut.token .comma hmember

end

/-- **The text of a value is one of its document.** -/
theorem isWrittenAs_document (v : Value) : v.doc.IsWrittenAs v.document := by
  refine ⟨v.isWhole_doc, ?_⟩
  simpa [Value.document] using v.isLaidOut_written 0 (.nil isBlank_nil)

end OntoWorlds.Json
