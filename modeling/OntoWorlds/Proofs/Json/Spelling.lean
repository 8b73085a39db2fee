import OntoWorlds.Json.Token

/-!
# OntoWorlds — the spelling of tokens

The lexical grammar of JSON as relations between tokens and texts, without a word about how a text
is read: a token may be spelled in many ways, and blanks may stand between any two tokens.

* `Token.IsSpelled` — the spellings of a token; `IsLaidOut` — the texts of a list of tokens.
* `tokensWithin_eq_of_isLaidOut` — a text is read as the tokens it spells.
* `isLaidOut_tokensWithin` — a text that is read without a broken token spells what is read.
* `tokens_eq_iff` — both as one: reading tokens is the inverse of laying them out.
-/

namespace OntoWorlds.Json

/-! ## The grammar -/

/-- A character stands for itself unless it is a quote, a backslash or a control character; any
character may be escaped. -/
inductive Piece.IsSpelled : Piece → List Char → Prop
  | plain {c : Char} : c ≠ '"' → c ≠ '\\' → 32 ≤ c.toNat → IsSpelled (.char c) [c]
  | escape {e c : Char} : escaped? e = some c → IsSpelled (.char c) ['\\', e]
  | code {h₁ h₂ h₃ h₄ : Char} {n : Nat} :
    hexCode? h₁ h₂ h₃ h₄ = some n → IsSpelled (.ofCode n) ['\\', 'u', h₁, h₂, h₃, h₄]

/-- Pieces are spelled one after another. -/
inductive PiecesSpelled : List Piece → List Char → Prop
  | nil : PiecesSpelled [] []
  | cons {p : Piece} {ps : List Piece} {cs ds : List Char} :
    p.IsSpelled cs → PiecesSpelled ps ds → PiecesSpelled (p :: ps) (cs ++ ds)

/-- One digit or more. -/
def IsDigits (ds : List Char) : Prop := ds ≠ [] ∧ ∀ c ∈ ds, c.isDigit = true

/-- The digits behind the point, or nothing. -/
inductive FractionSpelled : List Char → List Char → Prop
  | absent : FractionSpelled [] []
  | digits {ds : List Char} : IsDigits ds → FractionSpelled ds ('.' :: ds)

/-- The value of the digits behind a sign. -/
def signed (negative : Bool) (ds : List Char) : Int :=
  if negative then -(Nat.ofDigitChars 10 ds 0 : Int) else Nat.ofDigitChars 10 ds 0

/-- The exponent behind its mark, or nothing. -/
inductive ExponentSpelled : Option Int → List Char → Prop
  | absent : ExponentSpelled none []
  | unsigned {mark : Char} {ds : List Char} :
    mark = 'e' ∨ mark = 'E' → IsDigits ds → ExponentSpelled (some (signed false ds)) (mark :: ds)
  | plus {mark : Char} {ds : List Char} :
    mark = 'e' ∨ mark = 'E' → IsDigits ds →
      ExponentSpelled (some (signed false ds)) (mark :: '+' :: ds)
  | minus {mark : Char} {ds : List Char} :
    mark = 'e' ∨ mark = 'E' → IsDigits ds →
      ExponentSpelled (some (signed true ds)) (mark :: '-' :: ds)

/-- A number behind its sign. A zero is the only digit before the point if it is the first. -/
inductive Number.IsSpelledUnsigned (n : Number) : List Char → Prop
  | intro {fs es : List Char} : IsDigits n.whole → (n.whole.head? = some '0' → n.whole = ['0']) →
    FractionSpelled n.fraction fs → ExponentSpelled n.exponent es →
      IsSpelledUnsigned n (n.whole ++ (fs ++ es))

/-- The spellings of a token. -/
inductive Token.IsSpelled : Token → List Char → Prop
  | openBrace : IsSpelled .openBrace ['\x7b']
  | closeBrace : IsSpelled .closeBrace ['\x7d']
  | openBracket : IsSpelled .openBracket ['[']
  | closeBracket : IsSpelled .closeBracket [']']
  | colon : IsSpelled .colon [':']
  | comma : IsSpelled .comma [',']
  | null : IsSpelled .null ['n', 'u', 'l', 'l']
  | true : IsSpelled (.bool true) ['t', 'r', 'u', 'e']
  | false : IsSpelled (.bool false) ['f', 'a', 'l', 's', 'e']
  | positive {n : Number} {cs : List Char} :
    n.negative = false → n.IsSpelledUnsigned cs → IsSpelled (.number n) cs
  | negative {n : Number} {cs : List Char} :
    n.negative = true → n.IsSpelledUnsigned cs → IsSpelled (.number n) ('-' :: cs)
  /-- A string with an unpaired surrogate is spelled like any other, but has no characters. -/
  | text {ps : List Piece} {cs : List Char} :
    PiecesSpelled ps cs →
      IsSpelled (.text ((Piece.join ps).map String.ofList)) ('"' :: (cs ++ ['"']))

/-- Only blanks. -/
def IsBlank (cs : List Char) : Prop := ∀ c ∈ cs, isLayout c = true

/-- The text of the tokens, with blanks before each of them and at the end. -/
inductive IsLaidOut : List Token → List Char → Prop
  | nil {bs : List Char} : IsBlank bs → IsLaidOut [] bs
  | cons {t : Token} {ts : List Token} {bs cs rest : List Char} :
    IsBlank bs → t.IsSpelled cs → IsLaidOut ts rest → IsLaidOut (t :: ts) (bs ++ (cs ++ rest))

namespace Token

/-- The token is a number. -/
def isNumber : Token → Bool
  | number _ => Bool.true
  | _ => Bool.false

/-- The token marks a fault of the text. -/
def isBroken : Token → Bool
  | broken .. => Bool.true
  | _ => Bool.false

end Token

/-- Two numbers never stand next to each other: without a blank they would read as one. -/
def Separated : List Token → Prop
  | [] => True
  | t :: ts => (t.isNumber = true → ∀ u ∈ ts.head?, u.isNumber = false) ∧ Separated ts

theorem isBlank_nil : IsBlank [] := nofun

/-- A token at the very start of a text. -/
theorem IsLaidOut.token {t : Token} {ts : List Token} {cs rest : List Char} (ht : t.IsSpelled cs)
    (h : IsLaidOut ts rest) : IsLaidOut (t :: ts) (cs ++ rest) := .cons isBlank_nil ht h

/-- A blank may stand before any text of tokens. -/
theorem IsLaidOut.blank_cons {c : Char} {cs : List Char} {ts : List Token}
    (hc : isLayout c = true) (h : IsLaidOut ts cs) : IsLaidOut ts (c :: cs) := by
  cases h with
  | nil hbs => exact .nil (List.forall_mem_cons.mpr ⟨hc, hbs⟩)
  | @cons t ts bs cs rest hbs ht hts =>
    have hcbs : IsBlank (c :: bs) := List.forall_mem_cons.mpr ⟨hc, hbs⟩
    exact .cons hcbs ht hts

/-! ## Strings -/

theorem scanString_quote (rest : List Char) : scanString ('"' :: rest) = ⟨[], .ok rest⟩ := by
  rw [scanString.eq_def]
  rfl

/-- A spelled piece is scanned as the piece, whatever follows. -/
theorem scanString_piece {p : Piece} {cs : List Char} (h : p.IsSpelled cs) (rest : List Char) :
    scanString (cs ++ rest) = (scanString rest).push p := by
  -- a character by itself, one behind a backslash, and a code
  cases h with
  | plain hquote hslash hcontrol =>
    rw [List.singleton_append, scanString.eq_def]
    simp only [if_neg hquote, if_neg hslash, if_neg (Nat.not_lt.mpr hcontrol)]
  | @escape e c he =>
    have hu : e ≠ 'u' := by rintro rfl; cases he
    rw [List.cons_append, List.singleton_append, scanString.eq_def]
    simp only [if_neg hu, he]
    rfl
  | code hn =>
    simp only [List.cons_append, List.nil_append]
    rw [scanString.eq_def]
    simp only [if_true, hn]
    rfl

/-- The pieces of a spelled string are found, and its closing quote ends it. -/
theorem scanString_of_piecesSpelled {ps : List Piece} {cs : List Char} (h : PiecesSpelled ps cs)
    (rest : List Char) : scanString (cs ++ '"' :: rest) = ⟨ps, .ok rest⟩ := by
  induction h with
  | nil => exact scanString_quote rest
  | cons hp _ ih =>
    rw [List.append_assoc, scanString_piece hp, ih]
    rfl

/-- A text in which a first piece is followed by what is spelled up to a quote. -/
theorem piecesSpelled_of_push {p : Piece} {ds tail rest : List Char} {ps : List Piece}
    (hp : p.IsSpelled ds)
    (ih : ∀ {qs : List Piece}, scanString tail = ⟨qs, .ok rest⟩ →
      ∃ es, PiecesSpelled qs es ∧ tail = es ++ '"' :: rest)
    (h : (scanString tail).push p = ⟨ps, .ok rest⟩) :
    ∃ es, PiecesSpelled ps es ∧ ds ++ tail = es ++ '"' :: rest := by
  have hps : p :: (scanString tail).pieces = ps := congrArg StringScan.pieces h
  have hrest : (scanString tail).rest = .ok rest := congrArg StringScan.rest h
  have hscan : scanString tail = ⟨(scanString tail).pieces, .ok rest⟩ := by rw [← hrest]
  obtain ⟨es, hes, htail⟩ := ih hscan
  refine ⟨ds ++ es, hps ▸ .cons hp hes, ?_⟩
  rw [List.append_assoc, ← htail]

/-- What is scanned up to a closing quote is spelled by the text before the quote. -/
theorem piecesSpelled_of_scanString {cs rest : List Char} {ps : List Piece}
    (h : scanString cs = ⟨ps, .ok rest⟩) : ∃ ds, PiecesSpelled ps ds ∧ cs = ds ++ '"' :: rest := by
  fun_induction scanString cs generalizing ps with
  -- the text ends early, an escape is none, or a control character stands for itself
  | case1 | case3 | case5 | case6 | case8 | case9 => cases h
  -- the closing quote
  | case2 tail =>
    cases h
    exact ⟨[], .nil, rfl⟩
  | case4 h₁ h₂ h₃ h₄ tail n hn _ ih => exact piecesSpelled_of_push (.code hn) ih h
  | case7 e tail _ c he _ ih => exact piecesSpelled_of_push (.escape he) ih h
  | case10 c tail hquote hslash hcontrol ih =>
    exact piecesSpelled_of_push (.plain hquote hslash (Nat.not_lt.mp hcontrol)) ih h

/-! ## Numbers -/

/-- A character that would go on with a number standing before it. -/
def continuesNumber (c : Char) : Bool := c.isDigit || c == '.' || c == 'e' || c == 'E'

/-- The text is no continuation of a number. -/
def Stops (rest : List Char) : Prop := ∀ c ∈ rest.head?, continuesNumber c = false

/-- The text starts with no digit. -/
def NoDigit (rest : List Char) : Prop := ∀ c ∈ rest.head?, c.isDigit = false

/-- A text that does not continue a number starts with no digit. -/
theorem Stops.noDigit {rest : List Char} (h : Stops rest) : NoDigit rest := by
  intro c hc
  have := h c hc
  simp only [continuesNumber, Bool.or_eq_false_iff] at this
  exact this.1.1.1

/-- Digits are taken up to the first character that is none. -/
theorem takeWhile_digits {ds rest : List Char} (hds : IsDigits ds) (hrest : NoDigit rest) :
    (ds ++ rest).takeWhile Char.isDigit = ds ∧ (ds ++ rest).dropWhile Char.isDigit = rest := by
  rw [List.takeWhile_append_of_pos hds.2, List.dropWhile_append_of_pos hds.2]
  cases rest with
  | nil => simp
  | cons c rest =>
    have hc : c.isDigit = false := hrest c rfl
    simp [hc]

/-- If any digits are taken, they are one digit or more. -/
theorem isDigits_takeWhile {cs : List Char} (h : (cs.takeWhile Char.isDigit).isEmpty = false) :
    IsDigits (cs.takeWhile Char.isDigit) :=
  ⟨by simpa using h, List.all_eq_true.mp List.all_takeWhile⟩

/-- An exponent is read as far as its digits go. -/
theorem lexExponent_digits (n : Number) (negative : Bool) {ds rest : List Char}
    (hds : IsDigits ds) (hrest : NoDigit rest) :
    lexExponent n negative (ds ++ rest) =
      (.number { n with exponent := some (signed negative ds) }, rest) := by
  obtain ⟨htake, hdrop⟩ := takeWhile_digits hds hrest
  have hempty : ds.isEmpty = false := by simpa using hds.1
  simp only [lexExponent, htake, hdrop, hempty, signed]
  rfl

/-- The first character of digits is a digit. -/
theorem IsDigits.isDigit_head {ds rest cs : List Char} {c : Char} (h : IsDigits ds)
    (heq : ds ++ rest = c :: cs) : c.isDigit = true := by
  obtain ⟨d, ds, rfl⟩ := List.exists_cons_of_ne_nil h.1
  obtain rfl : d = c := (List.cons.inj heq).1
  exact h.2 d (List.mem_cons_self ..)

/-- The exponent behind its mark: digits that may have a sign. -/
theorem lexExponentMark_mark (n : Number) {mark : Char} (h : mark = 'e' ∨ mark = 'E')
    (cs : List Char) : lexExponentMark n (mark :: cs) =
      match cs with
      | '+' :: cs => lexExponent n false cs
      | '-' :: cs => lexExponent n true cs
      | cs => lexExponent n false cs := by
  obtain rfl | rfl := h <;> rfl

/-- A number whose exponent is spelled is read with it, and no further. -/
theorem lexExponentMark_of_spelled (n : Number) {e : Option Int} {es rest : List Char}
    (hn : n.exponent = none) (h : ExponentSpelled e es) (hrest : Stops rest) :
    lexExponentMark n (es ++ rest) = (.number { n with exponent := e }, rest) := by
  cases h with
  | absent =>
    -- what stands behind the number is no mark of an exponent
    rw [← hn]
    cases rest with
    | nil => rfl
    | cons c rest =>
      have hc : continuesNumber c = false := hrest c rfl
      simp only [continuesNumber, Bool.or_eq_false_iff] at hc
      simp [lexExponentMark, hc]
  | @unsigned mark ds hmark hds =>
    rw [List.cons_append, lexExponentMark_mark n hmark]
    -- a digit is no sign
    split
    · next heq => cases hds.isDigit_head heq
    · next heq => cases hds.isDigit_head heq
    · exact lexExponent_digits n false hds hrest.noDigit
  | plus hmark hds =>
    rw [List.cons_append, lexExponentMark_mark n hmark]
    exact lexExponent_digits n false hds hrest.noDigit
  | minus hmark hds =>
    rw [List.cons_append, lexExponentMark_mark n hmark]
    exact lexExponent_digits n true hds hrest.noDigit

/-- No digit follows where an exponent may stand, before the end of the number. -/
theorem ExponentSpelled.noDigit {e : Option Int} {es rest : List Char} (h : ExponentSpelled e es)
    (hrest : Stops rest) : NoDigit (es ++ rest) := by
  cases h with
  | absent => exact hrest.noDigit
  | unsigned hmark | plus hmark | minus hmark =>
    intro c hc
    obtain rfl : _ = c := Option.some.inj hc
    obtain rfl | rfl := hmark <;> rfl

/-- Nor does a point. -/
theorem ExponentSpelled.head_ne_point {e : Option Int} {es rest cs : List Char}
    (h : ExponentSpelled e es) (hrest : Stops rest) : es ++ rest ≠ '.' :: cs := by
  intro heq
  cases h with
  | absent =>
    have := hrest '.' (by rw [List.nil_append] at heq; rw [heq]; rfl)
    cases this
  | unsigned hmark | plus hmark | minus hmark =>
    obtain rfl | rfl := hmark <;> cases heq

/-- A number whose fraction and exponent are spelled is read with them, and no further. -/
theorem lexFraction_of_spelled (n : Number) {f : List Char} {e : Option Int}
    {fs es rest : List Char} (hf : n.fraction = []) (hn : n.exponent = none)
    (hfs : FractionSpelled f fs) (hes : ExponentSpelled e es) (hrest : Stops rest) :
    lexFraction n (fs ++ (es ++ rest)) =
      (.number { n with fraction := f, exponent := e }, rest) := by
  cases hfs with
  | absent =>
    -- without a fraction there is no point, so the exponent comes next
    rw [List.nil_append, lexFraction.eq_def, ← hf]
    split
    · next heq => cases hes.head_ne_point hrest heq
    · exact lexExponentMark_of_spelled n hn hes hrest
  -- the digits behind the point end before the exponent
  | digits hds =>
    obtain ⟨htake, hdrop⟩ := takeWhile_digits hds (hes.noDigit hrest)
    have hempty : f.isEmpty = false := by simpa using hds.1
    rw [List.cons_append, lexFraction.eq_def]
    simp only [htake, hdrop, hempty]
    exact lexExponentMark_of_spelled { n with fraction := f } hn hes hrest

/-- No digit follows where a fraction may stand. -/
theorem FractionSpelled.noDigit {f fs rest : List Char} (h : FractionSpelled f fs)
    (hrest : NoDigit rest) : NoDigit (fs ++ rest) := by
  cases h with
  | absent => exact hrest
  | digits hds =>
    intro c hc
    obtain rfl : '.' = c := Option.some.inj hc
    rfl

/-- A number is read as far as it is spelled. -/
theorem lexNumber_of_spelled {n : Number} {cs rest : List Char} (h : n.IsSpelledUnsigned cs)
    (hrest : Stops rest) : lexNumber n.negative (cs ++ rest) = (.number n, rest) := by
  obtain ⟨hwhole, hzero, hfs, hes⟩ := h
  rename_i fs es
  have hnodigit : NoDigit (fs ++ (es ++ rest)) := hfs.noDigit (hes.noDigit hrest)
  obtain ⟨htake, hdrop⟩ := takeWhile_digits hwhole hnodigit
  rw [List.append_assoc, List.append_assoc, lexNumber]
  simp only [htake, hdrop]
  have hfraction := lexFraction_of_spelled ⟨n.negative, n.whole, [], none⟩ rfl rfl hfs hes hrest
  split
  · next heq => cases hwhole.1 heq
  · next heq =>
    -- a digit behind a leading zero is not spelled
    rw [heq] at hzero
    cases hzero rfl
  · exact hfraction

/-! The other way round: what a number that was read is spelled by. -/

/-- An exponent that is read is spelled by its digits. -/
theorem spelled_of_lexExponent {n : Number} {negative : Bool} {cs rest : List Char} {t : Token}
    (h : lexExponent n negative cs = (t, rest)) (ht : t.isBroken = false) :
    ∃ ds, IsDigits ds ∧ t = .number { n with exponent := some (signed negative ds) } ∧
      cs = ds ++ rest := by
  rw [lexExponent] at h
  split at h
  · cases h
    cases ht
  · next hempty =>
    cases h
    exact ⟨_, isDigits_takeWhile (by simpa using hempty), rfl,
      List.takeWhile_append_dropWhile.symm⟩

/-- What is read from the mark on is spelled by an exponent, or by nothing. -/
theorem spelled_of_lexExponentMark {n : Number} {cs rest : List Char} {t : Token}
    (hn : n.exponent = none) (h : lexExponentMark n cs = (t, rest)) (ht : t.isBroken = false) :
    ∃ e es, ExponentSpelled e es ∧ t = .number { n with exponent := e } ∧ cs = es ++ rest := by
  rw [lexExponentMark.eq_def] at h
  split at h
  · next c tail =>
    -- a mark with a sign of either kind, or without one
    split at h
    · next hmark =>
      have hmark : c = 'e' ∨ c = 'E' := by simpa using hmark
      split at h
      · obtain ⟨ds, hds, rfl, rfl⟩ := spelled_of_lexExponent h ht
        exact ⟨_, _, .plus hmark hds, rfl, rfl⟩
      · obtain ⟨ds, hds, rfl, rfl⟩ := spelled_of_lexExponent h ht
        exact ⟨_, _, .minus hmark hds, rfl, rfl⟩
      · obtain ⟨ds, hds, rfl, rfl⟩ := spelled_of_lexExponent h ht
        exact ⟨_, _, .unsigned hmark hds, rfl, rfl⟩
    · cases h
      exact ⟨none, [], .absent, by rw [← hn], rfl⟩
  · cases h
    exact ⟨none, [], .absent, by rw [← hn], rfl⟩

/-- What is read from the point on is spelled by a fraction and an exponent. -/
theorem spelled_of_lexFraction {n : Number} {cs rest : List Char} {t : Token}
    (hf : n.fraction = []) (hn : n.exponent = none) (h : lexFraction n cs = (t, rest))
    (ht : t.isBroken = false) :
    ∃ f fs e es, FractionSpelled f fs ∧ ExponentSpelled e es ∧
      t = .number { n with fraction := f, exponent := e } ∧ cs = fs ++ (es ++ rest) := by
  rw [lexFraction.eq_def] at h
  split at h
  -- a point, with digits behind it
  · next tail =>
    dsimp only at h
    split at h
    · cases h
      cases ht
    · next hempty =>
      obtain ⟨e, es, hes, rfl, hrest⟩ :=
        spelled_of_lexExponentMark (n := { n with fraction := tail.takeWhile Char.isDigit }) hn h ht
      refine ⟨_, _, e, es, .digits (isDigits_takeWhile (by simpa using hempty)), hes, rfl, ?_⟩
      rw [← hrest, List.cons_append, List.takeWhile_append_dropWhile]
  · obtain ⟨e, es, hes, rfl, rfl⟩ := spelled_of_lexExponentMark hn h ht
    exact ⟨[], [], e, es, .absent, hes, by rw [← hf], rfl⟩

/-- A text read as a number spells it up to where reading stops. -/
theorem spelled_of_lexNumber {negative : Bool} {cs rest : List Char} {t : Token}
    (h : lexNumber negative cs = (t, rest)) (ht : t.isBroken = false) :
    ∃ (n : Number) (ds : List Char), t = .number n ∧ n.negative = negative ∧
      n.IsSpelledUnsigned ds ∧ cs = ds ++ rest := by
  rw [lexNumber] at h
  split at h
  · cases h
    cases ht
  · cases h
    cases ht
  · next hnil hzero =>
    obtain ⟨f, fs, e, es, hfs, hes, rfl, hrest⟩ := spelled_of_lexFraction rfl rfl h ht
    have hwhole : IsDigits (cs.takeWhile Char.isDigit) :=
      isDigits_takeWhile (by simpa using hnil)
    refine ⟨_, _, rfl, rfl, ⟨hwhole, ?_, hfs, hes⟩, ?_⟩
    -- two digits after a leading zero would have been refused
    · intro hhead
      obtain ⟨tail, heq⟩ := List.head?_eq_some_iff.mp hhead
      cases tail with
      | nil => exact heq
      | cons d tail => exact absurd heq (hzero d tail)
    · rw [List.append_assoc, List.append_assoc, ← hrest, List.takeWhile_append_dropWhile]

/-! ## Single tokens -/

/-- A text that starts with a digit is read as a number. -/
theorem lexToken_digit {c : Char} (hc : c.isDigit = true) (cs : List Char) :
    lexToken c cs = lexNumber false (c :: cs) := by
  rw [lexToken.eq_def]
  split
  case h_12 => rw [if_pos hc]
  all_goals cases hc

/-- The four blanks between tokens. -/
theorem eq_of_isLayout {c : Char} (h : isLayout c = true) :
    c = ' ' ∨ c = '\t' ∨ c = '\n' ∨ c = '\r' := by
  simpa [isLayout, or_assoc] using h

theorem isLayout_eq_false_of_isDigit {c : Char} (h : c.isDigit = true) : isLayout c = false := by
  rw [Bool.eq_false_iff]
  intro hlayout
  obtain rfl | rfl | rfl | rfl := eq_of_isLayout hlayout <;> cases h

/-- A number is spelled from a digit on. -/
theorem Number.IsSpelledUnsigned.exists_digit {n : Number} {cs : List Char}
    (h : n.IsSpelledUnsigned cs) : ∃ d ds, cs = d :: ds ∧ d.isDigit = true := by
  obtain ⟨hwhole, -, -, -⟩ := h
  obtain ⟨d, ds, heq⟩ := List.exists_cons_of_ne_nil hwhole.1
  rw [heq, List.cons_append]
  exact ⟨d, _, rfl, hwhole.2 d (heq ▸ List.mem_cons_self ..)⟩

/-- The spelling of a token starts with no blank, and is read as the token whatever follows; only
a number has to end there. -/
theorem lexToken_of_isSpelled {t : Token} {cs : List Char} (h : t.IsSpelled cs) :
    ∃ d ds, cs = d :: ds ∧ isLayout d = false ∧
      ∀ rest, (t.isNumber = true → Stops rest) → lexToken d (ds ++ rest) = (t, rest) := by
  cases h with
  -- a number without a sign
  | positive hsign hn =>
    obtain ⟨d, ds, rfl, hd⟩ := hn.exists_digit
    refine ⟨d, ds, rfl, ?_, fun rest hrest => ?_⟩
    · exact isLayout_eq_false_of_isDigit hd
    · rw [lexToken_digit hd, ← hsign]
      exact lexNumber_of_spelled hn (hrest rfl)
  -- a number with one
  | @negative n cs hsign hn =>
    refine ⟨'-', cs, rfl, rfl, fun rest hrest => ?_⟩
    rw [← lexNumber_of_spelled hn (hrest rfl), hsign]
    rfl
  -- a string, up to its closing quote
  | @text ps cs hps =>
    refine ⟨'"', cs ++ ['"'], rfl, rfl, fun rest _ => ?_⟩
    rw [List.append_assoc, List.singleton_append]
    show (scanString (cs ++ '"' :: rest)).token = _
    rw [scanString_of_piecesSpelled hps]
    rfl
  -- all other tokens have one spelling
  | _ => exact ⟨_, _, rfl, rfl, fun rest _ => rfl⟩

/-- A word is read only from its letters. -/
theorem spelled_of_lexWord {u t : Token} {lead : Lead} {ws cs rest : List Char}
    (h : lexWord u lead ws cs = (t, rest)) (ht : t.isBroken = false) :
    t = u ∧ cs = ws ++ rest := by
  induction ws generalizing cs with
  | nil =>
    cases h
    exact ⟨rfl, rfl⟩
  | cons w ws ih =>
    cases cs with
    | nil =>
      cases h
      cases ht
    | cons c cs =>
      rw [lexWord] at h
      split at h
      · next hcw =>
        obtain ⟨rfl, rfl⟩ := ih h
        exact ⟨rfl, by rw [eq_of_beq hcw]; rfl⟩
      · cases h
        cases ht

/-- A string is read only if it is closed. -/
theorem spelled_of_token {s : StringScan} {t : Token} {rest : List Char}
    (h : s.token = (t, rest)) (ht : t.isBroken = false) :
    s.rest = .ok rest ∧ t = .text ((Piece.join s.pieces).map String.ofList) := by
  rw [StringScan.token] at h
  split at h
  · next hrest =>
    cases h
    exact ⟨hrest, rfl⟩
  · cases h
    cases ht

/-- A token that was read without a fault is spelled by the text that reading it took. -/
theorem isSpelled_of_lexToken {c : Char} {cs rest : List Char} {t : Token}
    (h : lexToken c cs = (t, rest)) (ht : t.isBroken = false) :
    ∃ ds, t.IsSpelled (c :: ds) ∧ cs = ds ++ rest := by
  rw [lexToken.eq_def] at h
  split at h
  case h_1 => cases h; exact ⟨[], .openBrace, rfl⟩
  case h_2 => cases h; exact ⟨[], .closeBrace, rfl⟩
  case h_3 => cases h; exact ⟨[], .openBracket, rfl⟩
  case h_4 => cases h; exact ⟨[], .closeBracket, rfl⟩
  case h_5 => cases h; exact ⟨[], .colon, rfl⟩
  case h_6 => cases h; exact ⟨[], .comma, rfl⟩
  case h_7 =>
    obtain ⟨hrest, rfl⟩ := spelled_of_token h ht
    have hscan : scanString cs = ⟨(scanString cs).pieces, .ok rest⟩ := by rw [← hrest]
    obtain ⟨ds, hds, rfl⟩ := piecesSpelled_of_scanString hscan
    exact ⟨ds ++ ['"'], .text hds, by simp⟩
  case h_8 => obtain ⟨rfl, rfl⟩ := spelled_of_lexWord h ht; exact ⟨_, .null, rfl⟩
  case h_9 => obtain ⟨rfl, rfl⟩ := spelled_of_lexWord h ht; exact ⟨_, .true, rfl⟩
  case h_10 => obtain ⟨rfl, rfl⟩ := spelled_of_lexWord h ht; exact ⟨_, .false, rfl⟩
  case h_11 =>
    obtain ⟨n, ds, rfl, hsign, hn, rfl⟩ := spelled_of_lexNumber h ht
    exact ⟨ds, .negative hsign hn, rfl⟩
  case h_12 =>
    split at h
    · obtain ⟨n, ds, rfl, hsign, hn, heq⟩ := spelled_of_lexNumber h ht
      obtain ⟨d, ds, rfl, hd⟩ := hn.exists_digit
      obtain ⟨rfl, rfl⟩ := List.cons.inj heq
      exact ⟨ds, .positive hsign hn, rfl⟩
    · cases h
      cases ht

/-! ## Whole texts -/

/-- Blanks before a text that does not continue a number do not continue it either. -/
theorem Stops.blanks {bs rest : List Char} (hbs : IsBlank bs) (h : Stops rest) :
    Stops (bs ++ rest) := by
  cases bs with
  | nil => exact h
  | cons b bs =>
    intro c hc
    obtain rfl : b = c := Option.some.inj hc
    obtain rfl | rfl | rfl | rfl := eq_of_isLayout (hbs b (List.mem_cons_self ..)) <;> rfl

/-- What is laid out behind a number, starting with another token, does not continue it. -/
theorem IsLaidOut.stops {ts : List Token} {cs : List Char} (h : IsLaidOut ts cs)
    (hts : ∀ t ∈ ts.head?, t.isNumber = false) : Stops cs := by
  cases h with
  | nil hbs =>
    have hnil : Stops [] := nofun
    simpa using hnil.blanks hbs
  | @cons t ts bs cs rest hbs ht _ =>
    refine .blanks hbs ?_
    have ht' : t.isNumber = false := hts t rfl
    cases ht with
    | positive | negative => cases ht'
    | _ =>
      -- a bracket, a quote, a colon, a comma or the first letter of a word
      intro c hc
      cases hc
      rfl

/-- Blanks are passed over. -/
theorem tokensWithin_blank {bs : List Char} (h : IsBlank bs) (cs : List Char) (size : Nat) :
    tokensWithin (bs.length + size) (bs ++ cs) = tokensWithin size cs := by
  induction bs with
  | nil => rw [List.length_nil, Nat.zero_add, List.nil_append]
  | cons b bs ih =>
    rw [List.length_cons, Nat.add_right_comm, List.cons_append, tokensWithin,
      if_pos (h b (List.mem_cons_self ..))]
    exact ih fun c hc => h c (List.mem_cons_of_mem b hc)

/-- A text is read as the tokens it spells. -/
theorem tokensWithin_eq_of_isLaidOut {ts : List Token} {cs : List Char} (h : IsLaidOut ts cs)
    (hsep : Separated ts) {size : Nat} (hsize : cs.length ≤ size) : tokensWithin size cs = ts := by
  induction h generalizing size with
  -- only blanks are left
  | @nil bs hbs =>
    obtain ⟨k, rfl⟩ := Nat.exists_eq_add_of_le hsize
    have := tokensWithin_blank hbs [] k
    rw [List.append_nil] at this
    rw [this]
    cases k <;> rfl
  -- blanks, then a token, which ends where the next one begins
  | @cons t ts bs cs rest hbs ht hts ih =>
    obtain ⟨d, ds, rfl, hd, hlex⟩ := lexToken_of_isSpelled ht
    have hstops : t.isNumber = true → Stops rest := fun hn => hts.stops (hsep.1 hn)
    simp only [List.length_append, List.length_cons] at hsize
    obtain ⟨k, rfl⟩ : ∃ k, size = bs.length + (k + 1) := ⟨size - bs.length - 1, by omega⟩
    rw [tokensWithin_blank hbs, List.cons_append, tokensWithin, if_neg (by simp [hd])]
    simp only [hlex rest hstops]
    rw [ih hsep.2 (by omega)]

/-- A text without a fault is spelled by the tokens it is read as. -/
theorem isLaidOut_tokensWithin {size : Nat} {cs : List Char} (hsize : cs.length ≤ size)
    (h : ∀ t ∈ tokensWithin size cs, t.isBroken = false) :
    IsLaidOut (tokensWithin size cs) cs := by
  induction size generalizing cs with
  | zero =>
    obtain rfl := List.eq_nil_of_length_eq_zero (Nat.le_zero.mp hsize)
    exact .nil isBlank_nil
  | succ size ih =>
    cases cs with
    | nil => exact .nil isBlank_nil
    | cons c cs =>
      rw [List.length_cons] at hsize
      rw [tokensWithin] at h ⊢
      split at h
      -- a blank is laid out before what follows
      · next hc =>
        rw [if_pos hc]
        exact (ih (by omega) h).blank_cons hc
      -- the token takes the text that spells it, and the rest follows
      · next hc =>
        rw [if_neg hc]
        rcases hlex : lexToken c cs with ⟨t, rest⟩
        simp only [hlex] at h ⊢
        obtain ⟨ht, hts⟩ := List.forall_mem_cons.mp h
        obtain ⟨ds, hds, rfl⟩ := isSpelled_of_lexToken hlex ht
        simp only [List.length_append] at hsize
        exact .token hds (ih (by omega) hts)

/-- **Reading tokens is the inverse of laying them out.** Among token lists without a fault and
without adjacent numbers, the tokens read from a text are the ones that spell it. -/
theorem tokens_eq_iff {text : String} {ts : List Token} (hsep : Separated ts)
    (hts : ∀ t ∈ ts, t.isBroken = false) : tokens text = ts ↔ IsLaidOut ts text.toList := by
  constructor
  · rintro rfl
    exact isLaidOut_tokensWithin (Nat.le_refl _) hts
  · intro h
    exact tokensWithin_eq_of_isLaidOut h hsep (Nat.le_refl _)

end OntoWorlds.Json
