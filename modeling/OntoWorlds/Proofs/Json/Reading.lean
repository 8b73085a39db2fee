import Mathlib.Data.List.Nodup
import OntoWorlds.Json.Codec
import OntoWorlds.Proofs.Json.Writing

/-!
# OntoWorlds — codecs

What the reader and the writer of a codec have to do with each other, codec by codec up to records.

* `Codec.IsFaithful` — what is written is read again, and what is read has no fault in it.
* `Record.fill` — what reading a record comes to, by name or by position: its fields are set one
  after another.
* `Record.isFaithful_codec` — a record is faithful if its fields are and make up the record.
* `readDocument_eq_ok_iff` — a text is read exactly if it is one of a document that is read.
-/

namespace OntoWorlds.Json

/-- Only whole documents are read. -/
def ReadsWhole {α : Type} (read : Doc → Except Problem α) : Prop :=
  ∀ ⦃d : Doc⦄ ⦃a : α⦄, read d = .ok a → d.IsWhole

/-- The codec reads what it writes, and it reads whole documents only. -/
structure Codec.IsFaithful {α : Type} (c : Codec α) : Prop where
  read_doc : ∀ a, c.read (c.write a).doc = .ok a
  readsWhole : ReadsWhole c.read

/-- What is read through a map was read before it. -/
theorem exists_of_map_eq_ok {α β : Type} {f : α → β} {x : Except Problem α} {b : β}
    (h : x.map f = .ok b) : ∃ a, x = .ok a ∧ f a = b := by
  cases x with
  | error p => cases h
  | ok a => exact ⟨a, rfl, Except.ok.inj h⟩

/-- What is read in two steps was read in each. -/
theorem exists_of_bind_eq_ok {α β : Type} {x : Except Problem α} {f : α → Except Problem β} {b : β}
    (h : x >>= f = .ok b) : ∃ a, x = .ok a ∧ f a = .ok b := by
  cases x with
  | error p => cases h
  | ok a => exact ⟨a, rfl, h⟩

/-! ## Lists of items and members -/

/-- The items of an array, from a list of documents. -/
def Items.ofList : List Doc → Items
  | [] => .closed
  | d :: ds => .item d (ofList ds)

/-- The members of an object, from a list of keys and documents. -/
def Members.ofList : List (Option String × Doc) → Members
  | [] => .closed
  | (key, d) :: ms => .member key d (ofList ms)

theorem Values.docs_ofList (vs : List Value) :
    (Values.ofList vs).docs = .ofList (vs.map Value.doc) := by
  induction vs with
  | nil => rfl
  | cons v vs ih => rw [Values.ofList, Values.docs, ih]; rfl

theorem Entries.docs_ofList (es : List (String × Value)) :
    (Entries.ofList es).docs = .ofList (es.map fun e => (some e.1, e.2.doc)) := by
  induction es with
  | nil => rfl
  | cons e es ih =>
    obtain ⟨key, v⟩ := e
    rw [Entries.ofList, Entries.docs, ih]
    rfl

namespace Codec

variable {α β : Type} {c : Codec α}

/-! ## Plain types -/

/-- Strings are read as they are written. -/
theorem isFaithful_text : text.IsFaithful where
  read_doc _ := rfl
  readsWhole := by
    intro d s h
    -- only a string token passes, and a token is whole
    rw [text] at h
    dsimp only at h
    split at h
    · rfl
    · cases h

theorem isFaithful_bool : bool.IsFaithful where
  read_doc _ := rfl
  readsWhole := by
    intro d b h
    rw [bool] at h
    -- only a truth value passes
    dsimp only at h
    split at h
    · rfl
    · cases h

/-- Values of another type are read through the ones they are converted to. -/
theorem IsFaithful.convert (h : c.IsFaithful) {into : α → β} {of : β → α}
    (hinto : ∀ b, into (of b) = b) : (c.convert into of).IsFaithful where
  read_doc b := by
    show (c.read (c.write (of b)).doc).map into = .ok b
    rw [h.read_doc, Except.map, hinto]
  readsWhole := by
    -- a document that is converted has been read by the codec below
    intro d b hread
    obtain ⟨a, ha, -⟩ := exists_of_map_eq_ok hread
    exact h.readsWhole ha

/-- A type is told from none as long as it is never written as null. -/
theorem IsFaithful.nullable (h : c.IsFaithful) (hnull : ∀ a, (c.write a).doc ≠ .atom (some .null)) :
    c.nullable.IsFaithful where
  read_doc
    | none => rfl
    | some a => by
      have hwhole := (c.write a).isWhole_doc
      show c.nullable.read (c.write a).doc = .ok (some a)
      rw [Codec.nullable]
      dsimp only
      -- null, an absent token, and everything else
      split
      · next heq => exact absurd heq (hnull a)
      · next heq => rw [heq] at hwhole; cases hwhole
      · rw [h.read_doc]
        rfl
  readsWhole := by
    intro d a hread
    -- null is a whole document, and anything else has been read by the codec below
    rw [Codec.nullable] at hread
    dsimp only at hread
    split at hread
    · rfl
    · cases hread
    · obtain ⟨a, ha, -⟩ := exists_of_map_eq_ok hread
      exact h.readsWhole ha

/-! ## Lists -/

/-- Items that were written are read one by one. -/
theorem readItems_ofList_write (h : c.IsFaithful) (as : List α) :
    readItems c.read (.ofList (as.map fun a => (c.write a).doc)) = .ok as := by
  induction as with
  | nil => rfl
  | cons a as ih =>
    rw [List.map_cons, Items.ofList, readItems, h.read_doc, ih]
    rfl

/-- Items are read only from a whole list of them. -/
theorem isWhole_of_readItems {read : Doc → Except Problem α} (h : ReadsWhole read) :
    (items : Items) → {as : List α} → readItems read items = .ok as → items.IsWhole
  | .closed, _, _ => trivial
  | .item d rest, as, hread => by
    rw [readItems] at hread
    obtain ⟨a, ha, hread⟩ := exists_of_bind_eq_ok hread
    obtain ⟨bs, hbs, -⟩ := exists_of_bind_eq_ok hread
    exact ⟨h ha, isWhole_of_readItems h rest hbs⟩

/-- A list of values is faithful if the values are. -/
theorem IsFaithful.list (h : c.IsFaithful) : c.list.IsFaithful where
  read_doc as := by
    show readItems c.read (Values.ofList (as.map c.write)).docs = .ok as
    rw [Values.docs_ofList, List.map_map]
    exact readItems_ofList_write h as
  readsWhole := by
    intro d as hread
    rw [Codec.list] at hread
    -- only arrays are read, item by item
    dsimp only at hread
    split at hread
    · next items => exact isWhole_of_readItems h.readsWhole items hread
    · cases hread

/-! ## Variants -/

/-- Nothing but null is read as a value that says nothing. -/
theorem readUnit_readsWhole : ReadsWhole readUnit := by
  intro d a h
  rw [readUnit.eq_def] at h
  split at h
  · rfl
  · cases h

/-- A word is read as the value that it stands for. -/
theorem isFaithful_variant {word : α → String} {ofWord : String → Option α}
    (hword : ∀ a, ofWord (word a) = some a) (known : List String) :
    (variant word ofWord known).IsFaithful where
  read_doc a := by
    show readVariant ofWord known (word a) = .ok a
    rw [readVariant, hword]
  readsWhole := by
    intro d a h
    rw [variant] at h
    -- a word may stand alone or as the key of an object
    dsimp only at h
    split at h
    case h_1 => rfl
    -- the word as the only key of an object, with null behind it
    case h_2 w d rest =>
      obtain ⟨_, -, h⟩ := exists_of_bind_eq_ok h
      obtain ⟨_, hunit, h⟩ := exists_of_bind_eq_ok h
      obtain ⟨_, hend, -⟩ := exists_of_bind_eq_ok h
      -- behind the null the object has to be closed
      cases rest with
      | closed => exact ⟨readUnit_readsWhole hunit, trivial⟩
      | cut | stray | member => cases hend
    all_goals cases h

end Codec

/-! ## Fields -/

/-- The field reads what it writes: `carry a` sets the field of a record to what it is in `a`. -/
structure Field.IsFaithful {α : Type} (f : Field α) (carry : α → α → α) : Prop where
  read_doc : ∀ a, f.read (f.write a).doc = .ok (carry a)
  readsWhole : ReadsWhole f.read

/-- A field of a record is faithful if its codec is. -/
theorem Codec.IsFaithful.field {α β : Type} {c : Codec α} (h : c.IsFaithful) {name : String}
    {isRequired : Bool} {get : β → α} {set : α → β → β} :
    (c.field name isRequired get set).IsFaithful fun b => set (get b) where
  read_doc b := by
    show (c.read (c.write (get b)).doc).map set = _
    rw [h.read_doc]
    rfl
  readsWhole := by
    -- a value that is set has been read by the codec of the field
    intro d f hread
    obtain ⟨a, ha, -⟩ := exists_of_map_eq_ok hread
    exact h.readsWhole ha

/-! ## Records -/

namespace Record

variable {α : Type}

/-- Sets fields to the values of documents, one field after another. -/
def fill : List (Field α × Doc) → α → Except Problem α
  | [], a => .ok a
  | (f, d) :: fds, a =>
    match f.read d with
    | .error p => .error p
    | .ok set => fill fds (set a)

/-- Faithful fields carry one record over into another, field by field. -/
theorem fill_write {fields : List (Field α)} {carries : List (α → α → α)}
    (h : List.Forall₂ Field.IsFaithful fields carries) (a b : α) :
    fill (fields.map fun f => (f, (f.write a).doc)) b =
      .ok (carries.foldl (fun b carry => carry a b) b) := by
  induction h generalizing b with
  | nil => rfl
  -- the first field is carried over before the claim is used for the rest
  | cons hf _ ih =>
    rw [List.map_cons, fill, hf.read_doc, List.foldl_cons]
    exact ih _

/-- Reading an array with all fields sets one after another. -/
theorem readItems_fields (r : Record α) (fds : List (Field α × Doc)) (index : Nat) (a : α) :
    r.readItems (fds.map Prod.fst) index (.ofList (fds.map Prod.snd)) a = fill fds a := by
  induction fds generalizing index a with
  | nil => rfl
  | cons fd fds ih =>
    obtain ⟨f, d⟩ := fd
    rw [List.map_cons, List.map_cons, Items.ofList, readItems, fill]
    -- a field that does not read its document ends the reading on both sides
    cases f.read d with
    | error p => rfl
    | ok set => exact ih (index + 1) (set a)

/-- The names of the fields tell them apart. -/
def NamesDistinct (r : Record α) : Prop := (r.fields.map (·.name)).Nodup

instance (r : Record α) : Decidable r.NamesDistinct :=
  inferInstanceAs (Decidable (r.fields.map (·.name)).Nodup)

variable {r : Record α}

/-- A field that is found has the name that it was looked for by. -/
theorem mem_of_find {name : String} {f : Field α} (h : r.find name = some f) :
    f ∈ r.fields ∧ f.name = name :=
  ⟨List.mem_of_find?_eq_some h, eq_of_beq (List.find?_some h :)⟩

/-- Each field is found by its name. -/
theorem find_name (h : r.NamesDistinct) {f : Field α} (hf : f ∈ r.fields) :
    r.find f.name = some f := by
  cases hfind : r.find f.name with
  -- a search by the name of a field of the record does not come back empty
  | none => exact absurd (beq_self_eq_true f.name) (List.find?_eq_none.mp hfind f hf)
  | some g =>
    obtain ⟨hg, hname⟩ := mem_of_find hfind
    rw [List.inj_on_of_nodup_map h hg hf hname]

/-- A record is complete if all required fields have been seen. -/
theorem finish_eq_ok_iff {seen : List String} {a b : α} : r.finish seen a = .ok b ↔
    (∀ f ∈ r.fields, f.isRequired = true → f.name ∈ seen) ∧ a = b := by
  rw [finish]
  cases hfind : r.fields.find? fun f => f.isRequired && !seen.contains f.name with
  | none =>
    have hseen := List.find?_eq_none.mp hfind
    simp only [Except.ok.injEq]
    refine (and_iff_right ?_).symm
    intro f hf hrequired
    simpa [hrequired] using hseen f hf
  | some f =>
    -- the field that is found missing is required and has not been seen
    have hmissing : f.isRequired = true ∧ f.name ∉ seen := by simpa using List.find?_some hfind
    refine iff_of_false nofun ?_
    rintro ⟨hseen, -⟩
    exact hmissing.2 (hseen f (List.mem_of_find?_eq_some hfind) hmissing.1)

/-- Reading an object with all fields that are not seen yet sets one after another. -/
theorem readMembers_fields (h : r.NamesDistinct) (fds : List (Field α × Doc))
    (seen : List String) (done : List (Field α))
    (hfields : r.fields = done ++ fds.map Prod.fst)
    (hseen : ∀ name, name ∈ seen ↔ name ∈ done.map (·.name)) (a : α) :
    r.readMembers (.ofList (fds.map fun fd => (some fd.1.name, fd.2))) seen a = fill fds a := by
  -- the members are at an end, and all fields have been seen
  induction fds generalizing seen done a with
  | nil =>
    refine finish_eq_ok_iff.mpr ⟨fun f hf _ => (hseen _).mpr (List.mem_map_of_mem ?_), rfl⟩
    simpa [hfields] using hf
  | cons fd fds ih =>
    obtain ⟨f, d⟩ := fd
    have hfind : r.find f.name = some f := find_name h (by rw [hfields]; simp)
    -- only the fields before this one have been seen, and none of them has its name
    have hnew : seen.contains f.name = false := by
      rw [NamesDistinct, hfields, List.map_append, List.nodup_append] at h
      rw [Bool.eq_false_iff, ne_eq, List.contains_iff_mem, hseen]
      exact fun hdone => h.2.2 f.name hdone f.name (List.mem_cons_self ..) rfl
    rw [List.map_cons, Members.ofList, readMembers, hfind, fill]
    simp only [hnew]
    cases f.read d with
    | error p => rfl
    | ok set =>
      refine ih _ (done ++ [f]) (by simpa using hfields) ?_ (set a)
      intro name
      simp [hseen, or_comm]

/-- An object is read as a record only if it is whole. -/
theorem isWhole_of_readMembers (hfields : ∀ f ∈ r.fields, ReadsWhole f.read) :
    (members : Members) → {seen : List String} → {a b : α} →
      r.readMembers members seen a = .ok b → members.IsWhole
  | .closed, _, _, _, _ => trivial
  | .member (some key) d rest, seen, a, b, hread => by
    rw [readMembers] at hread
    split at hread
    -- a key that is no field, in a record that may have others: its value is skipped
    · split at hread
      · cases hread
      · split at hread
        · cases hread
        · next hskip =>
          exact ⟨d.skip_eq_none_iff.mp hskip, isWhole_of_readMembers hfields rest hread⟩
    -- a field that has not been seen: its value is read
    · next f hfind =>
      split at hread
      · cases hread
      · split at hread
        · cases hread
        · next hf =>
          exact ⟨hfields f (mem_of_find hfind).1 hf, isWhole_of_readMembers hfields rest hread⟩

/-- An array is read as a record only if it is whole. -/
theorem isWhole_of_readItems : (fields : List (Field α)) → (∀ f ∈ fields, ReadsWhole f.read) →
    (items : Items) → {index : Nat} → {a b : α} → r.readItems fields index items a = .ok b →
      items.IsWhole
  | _, _, .closed, _, _, _, _ => trivial
  | f :: fields, hfields, .item d rest, index, a, b, hread => by
    obtain ⟨hf, hfields⟩ := List.forall_mem_cons.mp hfields
    rw [readItems] at hread
    split at hread
    · cases hread
    · next hset => exact ⟨hf hset, isWhole_of_readItems fields hfields rest hread⟩
  | [], _, .item _ _, _, _, _, hread => by cases hread
  | [], _, .cut _, _, _, _, hread => by cases hread
  | _ :: _, _, .cut _, _, _, _, hread => by cases hread

/-- A record is faithful if its fields are and carry all of a record over into the blank one. -/
theorem isFaithful_codec (h : r.NamesDistinct) {carries : List (α → α → α)}
    (hfields : List.Forall₂ Field.IsFaithful r.fields carries)
    (hcarry : ∀ a, carries.foldl (fun b carry => carry a b) r.blank = a) :
    r.codec.IsFaithful where
  read_doc a := by
    -- reading the members that were written fills the blank record with what the fields carry
    have hfill := fill_write hfields a r.blank
    rw [hcarry, ← readMembers_fields h _ [] []
      (by simp [Function.comp_def]) (by simp), List.map_map] at hfill
    show r.readMembers (Entries.ofList (r.fields.map fun f => (f.name, f.write a))).docs [] r.blank
      = .ok a
    rw [Entries.docs_ofList, List.map_map]
    exact hfill
  readsWhole := by
    have hwhole : ∀ f ∈ r.fields, ReadsWhole f.read :=
      ((List.forall₂_and_left _ _).mp (hfields.imp fun _ _ hf => ⟨hf.readsWhole, hf⟩)).1
    intro d a hread
    change r.read d = .ok a at hread
    -- a record may stand as an array or as an object; nothing else is read as one
    rw [read.eq_def] at hread
    split at hread
    · exact isWhole_of_readItems r.fields hwhole _ hread
    · exact isWhole_of_readMembers hwhole _ hread
    · cases hread

end Record

/-! ## Whole texts -/

/-- **A text is read exactly if it is one of a document that is read.** -/
theorem readDocument_eq_ok_iff {α : Type} {read : Doc → Except Problem α} (h : ReadsWhole read)
    (text : String) (a : α) :
    readDocument read text = .ok a ↔ ∃ d : Doc, d.IsWrittenAs text ∧ read d = .ok a := by
  rcases hparse : Doc.ofTokens (tokens text) with ⟨d, rest⟩
  unfold readDocument
  simp only [hparse]
  constructor
  · intro hread
    split at hread
    · cases hread
    · next a' ha =>
      split at hread
      · next hrest =>
        cases hread
        obtain rfl := List.isEmpty_iff.mp hrest
        exact ⟨d, (isWrittenAs_iff d text).mpr ⟨h ha, hparse⟩, ha⟩
      · cases hread
  · rintro ⟨e, he, hread⟩
    -- the tokens of a text make up one document, so it is the same
    have heq := hparse.symm.trans ((isWrittenAs_iff e text).mp he).2
    cases heq
    rw [hread]
    rfl

end OntoWorlds.Json
