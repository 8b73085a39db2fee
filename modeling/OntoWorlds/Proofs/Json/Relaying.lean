import Mathlib.Data.List.Pairwise
import Mathlib.Data.List.Perm.Basic
import OntoWorlds.Proofs.Json.Reading

/-!
# OntoWorlds — documents laid out differently

The freedom that a document leaves to its author once it is known what it says: the order of keys,
keys that nobody reads, defaults that may be left out, and records as arrays. What a reader makes of
a document does not depend on it.

* `Shape` — the records of a document and the names and defaults of their fields.
* `Relaid` — a document and the same one laid out differently in one place, at any depth.
* `Record.Takes` — what reading one member does; each kind of change is then a short argument.
* `Record.keeps_record` — a record is read alike in every layout if its fields are.
-/

namespace OntoWorlds.Json

/-! ## Shapes -/

/-- A field as a document has it: its name, the value it may be left out for, and its shape. -/
structure Slot (σ : Type) where
  name : String
  default : Option Value
  shape : σ

/-- What is a record in a document, and which fields it has in declared order. -/
inductive Shape
  | plain
  | list (item : Shape)
  | record (slots : List (Slot Shape))

/-- A field that has to be there. -/
def Slot.required (name : String) (shape : Shape) : Slot Shape := ⟨name, none, shape⟩

/-- A field that may be left out for its default. -/
def Slot.optional (name : String) (default : Value) (shape : Shape) : Slot Shape :=
  ⟨name, some default, shape⟩

/-- None of the fields has the name. -/
def IsForeign (slots : List (Slot Shape)) (name : String) : Prop := ∀ s ∈ slots, s.name ≠ name

instance (slots : List (Slot Shape)) (name : String) : Decidable (IsForeign slots name) :=
  inferInstanceAs (Decidable (∀ s ∈ slots, s.name ≠ name))

/-- The second document is the first one with one change of layout. -/
inductive Relaid : Shape → Doc → Doc → Prop
  /-- The keys of a record in another order. -/
  | permute {slots : List (Slot Shape)} {ms ms' : List (Option String × Doc)} :
    ms.Perm ms' → Relaid (.record slots) (.object (.ofList ms)) (.object (.ofList ms'))
  /-- A key that is no field, with any value. -/
  | add {slots : List (Slot Shape)} {before after : List (Option String × Doc)} {name : String}
    {d : Doc} : IsForeign slots name → d.IsWhole →
      Relaid (.record slots) (.object (.ofList (before ++ after)))
        (.object (.ofList (before ++ (some name, d) :: after)))
  /-- Another value for a key that is no field. -/
  | replace {slots : List (Slot Shape)} {before after : List (Option String × Doc)} {name : String}
    {d d' : Doc} : IsForeign slots name → d'.IsWhole →
      Relaid (.record slots) (.object (.ofList (before ++ (some name, d) :: after)))
        (.object (.ofList (before ++ (some name, d') :: after)))
  /-- A field left out that has its default. -/
  | leaveOut {slots : List (Slot Shape)} {before after : List (Option String × Doc)}
    {s : Slot Shape} {v : Value} : s ∈ slots → s.default = some v →
      Relaid (.record slots) (.object (.ofList (before ++ (some s.name, v.doc) :: after)))
        (.object (.ofList (before ++ after)))
  /-- A record that has all fields as the array of their values in declared order. -/
  | asArray {slots : List (Slot Shape)} {ds : List Doc} {ms extras : List (Option String × Doc)} :
    ds.length = slots.length →
      (∀ m ∈ extras, ∃ name, m.1 = some name ∧ IsForeign slots name) →
      ms.Perm ((slots.map fun s => some s.name).zip ds ++ extras) →
      Relaid (.record slots) (.object (.ofList ms)) (.array (.ofList ds))
  /-- A change inside the value of a field. -/
  | member {slots : List (Slot Shape)} {before after : List (Option String × Doc)} {s : Slot Shape}
    {d d' : Doc} : s ∈ slots → Relaid s.shape d d' →
      Relaid (.record slots) (.object (.ofList (before ++ (some s.name, d) :: after)))
        (.object (.ofList (before ++ (some s.name, d') :: after)))
  /-- A change inside a record that is written as an array. -/
  | element {ss ss' : List (Slot Shape)} {before after : List Doc} {s : Slot Shape} {d d' : Doc} :
    before.length = ss.length → Relaid s.shape d d' →
      Relaid (.record (ss ++ s :: ss')) (.array (.ofList (before ++ d :: after)))
        (.array (.ofList (before ++ d' :: after)))
  /-- A change inside an item of a list. -/
  | item {shape : Shape} {before after : List Doc} {d d' : Doc} : Relaid shape d d' →
      Relaid (.list shape) (.array (.ofList (before ++ d :: after)))
        (.array (.ofList (before ++ d' :: after)))

/-- Whatever is read from a document is read from it in every other layout. -/
def Keeps {α : Type} (read : Doc → Except Problem α) (shape : Shape) : Prop :=
  ∀ ⦃d d' : Doc⦄ ⦃a : α⦄, Relaid shape d d' → read d = .ok a → read d' = .ok a

theorem keeps_plain {α : Type} (read : Doc → Except Problem α) : Keeps read .plain := nofun

/-! ## Lists -/

/-- A list whose items are read alike is read alike. -/
theorem Codec.readItems_congr {α : Type} {read : Doc → Except Problem α} {d d' : Doc}
    (h : ∀ ⦃a : α⦄, read d = .ok a → read d' = .ok a) (before after : List Doc) {as : List α}
    (hread : readItems read (.ofList (before ++ d :: after)) = .ok as) :
    readItems read (.ofList (before ++ d' :: after)) = .ok as := by
  induction before generalizing as with
  -- the item itself, with the same items behind it
  | nil =>
    rw [List.nil_append, Items.ofList, readItems] at hread ⊢
    obtain ⟨a, ha, hread⟩ := exists_of_bind_eq_ok hread
    rw [h ha]
    exact hread
  -- an item before it is read as it was
  | cons e before ih =>
    rw [List.cons_append, Items.ofList, readItems] at hread ⊢
    obtain ⟨a, ha, hread⟩ := exists_of_bind_eq_ok hread
    obtain ⟨bs, hbs, hread⟩ := exists_of_bind_eq_ok hread
    rw [ha, ih hbs]
    exact hread

/-- A list keeps its layout free if its items do. -/
theorem Codec.keeps_list {α : Type} {c : Codec α} {shape : Shape} (h : Keeps c.read shape) :
    Keeps c.list.read (.list shape) := by
  intro d d' as hrelaid hread
  cases hrelaid with
  | item hinner => exact readItems_congr (fun _ ha => h hinner ha) _ _ hread

/-! ## Members of a record -/

/-- The fields are independent of each other: setting both comes to the same in either order. -/
def Field.Commute {α : Type} (f g : Field α) : Prop :=
  ∀ ⦃d e : Doc⦄ ⦃s t : α → α⦄, f.read d = .ok s → g.read e = .ok t → ∀ a, s (t a) = t (s a)

instance {α : Type} : Std.Symm (Field.Commute (α := α)) where
  symm _ _ h := fun _ _ _ _ hs ht a => (h ht hs a).symm

namespace Record

variable {α : Type}

/-- The record ignores keys that are no fields, and its fields are told apart by their names and are
independent of each other. -/
structure IsOpen (r : Record α) : Prop where
  ignores : r.isClosed = false
  names : r.NamesDistinct
  commute : r.fields.Pairwise Field.Commute

/-- What reading a member does to the seen fields and the record. -/
inductive Takes (r : Record α) : List String → α → Option String × Doc → List String → α → Prop
  | field {seen : List String} {a : α} {f : Field α} {d : Doc} {set : α → α} :
    f ∈ r.fields → f.name ∉ seen → f.read d = .ok set →
      Takes r seen a (some f.name, d) (f.name :: seen) (set a)
  | foreign {seen : List String} {a : α} {name : String} {d : Doc} :
    (∀ f ∈ r.fields, f.name ≠ name) → d.IsWhole → Takes r seen a (some name, d) seen a

variable {r : Record α}

/-- A name is foreign to a record if no field has it. -/
theorem find_eq_none_iff {name : String} :
    r.find name = none ↔ ∀ f ∈ r.fields, f.name ≠ name := by
  simp [find, List.find?_eq_none]

/-- Members are read from left to right. -/
theorem readMembers_cons_eq_ok_iff (h : r.IsOpen) {m : Option String × Doc}
    {ms : List (Option String × Doc)} {seen : List String} {a b : α} :
    r.readMembers (.ofList (m :: ms)) seen a = .ok b ↔
      ∃ seen' a', r.Takes seen a m seen' a' ∧ r.readMembers (.ofList ms) seen' a' = .ok b := by
  constructor
  -- reading the first member, by its key and by whether the key is a field
  · intro hread
    obtain ⟨key, d⟩ := m
    cases key with
    | none => cases hread
    | some key =>
      rw [Members.ofList, readMembers] at hread
      split at hread
      · next hfind =>
        rw [h.ignores] at hread
        split at hread
        · next hclosed => cases hclosed
        · split at hread
          · cases hread
          · next hskip =>
            have hd : d.IsWhole := d.skip_eq_none_iff.mp hskip
            exact ⟨seen, a, .foreign (find_eq_none_iff.mp hfind) hd, hread⟩
      · next f hfind =>
        obtain ⟨hf, rfl⟩ := mem_of_find hfind
        split at hread
        · cases hread
        · next hnew =>
          split at hread
          · cases hread
          · next set hset => exact ⟨_, _, .field hf (by simpa using hnew) hset, hread⟩
  · rintro ⟨seen', a', htakes, hread⟩
    cases htakes with
    | @field f d set hf hnew hset =>
      rw [Members.ofList, readMembers, find_name h.names hf]
      simp only [List.contains_iff_mem, if_neg hnew, hset]
      exact hread
    | @foreign name d hforeign hd =>
      rw [Members.ofList, readMembers, find_eq_none_iff.mpr hforeign, h.ignores]
      simp only [d.skip_eq_none_iff.mpr hd]
      exact hread

/-- An object without members is read if no required field is missing. -/
theorem readMembers_nil_eq_ok_iff {seen : List String} {a b : α} :
    r.readMembers (.ofList []) seen a = .ok b ↔
      (∀ f ∈ r.fields, f.isRequired = true → f.name ∈ seen) ∧ a = b := finish_eq_ok_iff

/-- Fewer fields may be seen, as long as no required one is missing. -/
theorem readMembers_of_subset (h : r.IsOpen) {ms : List (Option String × Doc)}
    {seen seen' : List String} (hsub : seen' ⊆ seen)
    (hrequired : ∀ f ∈ r.fields, f.isRequired = true → f.name ∈ seen → f.name ∈ seen') {a b : α}
    (hread : r.readMembers (.ofList ms) seen a = .ok b) :
    r.readMembers (.ofList ms) seen' a = .ok b := by
  induction ms generalizing seen seen' a with
  | nil =>
    obtain ⟨hseen, rfl⟩ := readMembers_nil_eq_ok_iff.mp hread
    exact readMembers_nil_eq_ok_iff.mpr
      ⟨fun f hf hreq => hrequired f hf hreq (hseen f hf hreq), rfl⟩
  | cons m ms ih =>
    obtain ⟨_, _, htakes, hread⟩ := (readMembers_cons_eq_ok_iff h).mp hread
    refine (readMembers_cons_eq_ok_iff h).mpr ?_
    cases htakes with
    -- the field has not been seen here either
    | @field f d set hf hnew hset =>
      refine ⟨_, _, .field hf (fun hmem => hnew (hsub hmem)) hset, ih ?_ ?_ hread⟩
      · exact List.cons_subset_cons f.name hsub
      · intro g hg hreq hmem
        obtain heq | hmem := List.mem_cons.mp hmem
        · exact List.mem_cons.mpr (.inl heq)
        · exact List.mem_cons_of_mem _ (hrequired g hg hreq hmem)
    | foreign hforeign hd => exact ⟨_, _, .foreign hforeign hd, ih hsub hrequired hread⟩

/-- Two members that follow each other may change places. -/
theorem Takes.swap (h : r.IsOpen) {m n : Option String × Doc} {s₀ s₁ s₂ : List String}
    {a₀ a₁ a₂ : α} (hm : r.Takes s₀ a₀ m s₁ a₁) (hn : r.Takes s₁ a₁ n s₂ a₂) :
    ∃ s₁' a₁' s₂', r.Takes s₀ a₀ n s₁' a₁' ∧ r.Takes s₁' a₁' m s₂' a₂ ∧ s₂.Perm s₂' := by
  cases hm with
  | @field f d s hf hfnew hset =>
    cases hn with
    | @field g e t hg hgnew hset' =>
      -- the second field is not the first one again, so setting them commutes
      obtain ⟨hne, hgnew⟩ := not_or.mp (List.mem_cons.not.mp hgnew)
      have hcommute : f.Commute g := h.commute.forall hf hg fun heq => hne (heq ▸ rfl)
      have hfnew' : f.name ∉ g.name :: s₀ :=
        List.not_mem_cons_of_ne_of_not_mem (fun heq => hne heq.symm) hfnew
      refine ⟨_, _, _, .field hg hgnew hset', ?_, .swap ..⟩
      rw [← hcommute hset hset']
      exact .field hf hfnew' hset
    | foreign hforeign he => exact ⟨_, _, _, .foreign hforeign he, .field hf hfnew hset, .refl _⟩
  | foreign hforeign hd =>
    cases hn with
    | field hg hgnew hset => exact ⟨_, _, _, .field hg hgnew hset, .foreign hforeign hd, .refl _⟩
    | foreign hforeign' he =>
      exact ⟨_, _, _, .foreign hforeign' he, .foreign hforeign hd, .refl _⟩

/-- The order of the members does not matter. -/
theorem readMembers_perm (h : r.IsOpen) {ms ms' : List (Option String × Doc)} (hperm : ms.Perm ms')
    {seen : List String} {a b : α} (hread : r.readMembers (.ofList ms) seen a = .ok b) :
    r.readMembers (.ofList ms') seen a = .ok b := by
  induction hperm generalizing seen a with
  | nil => exact hread
  -- the first member stays in its place
  | cons m _ ih =>
    obtain ⟨_, _, htakes, hread⟩ := (readMembers_cons_eq_ok_iff h).mp hread
    exact (readMembers_cons_eq_ok_iff h).mpr ⟨_, _, htakes, ih hread⟩
  | swap n m ms =>
    obtain ⟨_, _, hm, hread⟩ := (readMembers_cons_eq_ok_iff h).mp hread
    obtain ⟨_, _, hn, hread⟩ := (readMembers_cons_eq_ok_iff h).mp hread
    -- the same fields have been seen behind the two, only in another order
    obtain ⟨_, _, _, hn, hm, hseen⟩ := hm.swap h hn
    refine (readMembers_cons_eq_ok_iff h).mpr ⟨_, _, hn, ?_⟩
    refine (readMembers_cons_eq_ok_iff h).mpr ⟨_, _, hm, ?_⟩
    exact readMembers_of_subset h hseen.symm.subset (fun _ _ _ hmem => hseen.subset hmem) hread
  | trans _ _ ih ih' => exact ih' (ih hread)

/-- Members that are read alike are read alike behind any others. -/
theorem readMembers_append (h : r.IsOpen) {ms ms' : List (Option String × Doc)} {b : α}
    (hms : ∀ {seen : List String} {a : α}, r.readMembers (.ofList ms) seen a = .ok b →
      r.readMembers (.ofList ms') seen a = .ok b) (before : List (Option String × Doc))
    {seen : List String} {a : α} (hread : r.readMembers (.ofList (before ++ ms)) seen a = .ok b) :
    r.readMembers (.ofList (before ++ ms')) seen a = .ok b := by
  induction before generalizing seen a with
  | nil => exact hms hread
  | cons m before ih =>
    obtain ⟨_, _, htakes, hread⟩ := (readMembers_cons_eq_ok_iff h).mp hread
    exact (readMembers_cons_eq_ok_iff h).mpr ⟨_, _, htakes, ih hread⟩

/-- A member that is a field sets the field, unless it has been seen. -/
theorem takes_field_iff (h : r.IsOpen) {f : Field α} (hf : f ∈ r.fields) {d : Doc}
    {seen seen' : List String} {a a' : α} : r.Takes seen a (some f.name, d) seen' a' ↔
      ∃ set, f.name ∉ seen ∧ f.read d = .ok set ∧ f.name :: seen = seen' ∧ set a = a' := by
  constructor
  · intro htakes
    generalize hm : (some f.name, d) = m at htakes
    cases htakes with
    | @field g e set hg hnew hset =>
      obtain ⟨hname, rfl⟩ := Prod.mk.inj hm
      obtain rfl := List.inj_on_of_nodup_map h.names hf hg (Option.some.inj hname)
      exact ⟨set, hnew, hset, rfl, rfl⟩
    | foreign hforeign =>
      obtain ⟨hname, rfl⟩ := Prod.mk.inj hm
      exact absurd (Option.some.inj hname) (hforeign f hf)
  · rintro ⟨set, hnew, hset, rfl, rfl⟩
    exact .field hf hnew hset

/-- A member that is no field does nothing, as long as its value is whole. -/
theorem takes_foreign_iff {name : String} (hforeign : ∀ f ∈ r.fields, f.name ≠ name) {d : Doc}
    {seen seen' : List String} {a a' : α} :
    r.Takes seen a (some name, d) seen' a' ↔ d.IsWhole ∧ seen = seen' ∧ a = a' := by
  constructor
  · intro htakes
    cases htakes with
    | field hf => exact absurd rfl (hforeign _ hf)
    | foreign _ hd => exact ⟨hd, rfl, rfl⟩
  · rintro ⟨hd, rfl, rfl⟩
    exact .foreign hforeign hd

/-- Members that are no fields may be left out at the end. -/
theorem readMembers_extras (h : r.IsOpen) {extras : List (Option String × Doc)}
    (hextras : ∀ m ∈ extras, ∃ name, m.1 = some name ∧ ∀ f ∈ r.fields, f.name ≠ name)
    {seen : List String} {a b : α} (hread : r.readMembers (.ofList extras) seen a = .ok b) :
    r.readMembers (.ofList []) seen a = .ok b := by
  induction extras with
  | nil => exact hread
  | cons m extras ih =>
    obtain ⟨⟨name, hname, hforeign⟩, hrest⟩ := List.forall_mem_cons.mp hextras
    obtain ⟨key, d⟩ := m
    obtain rfl : key = some name := hname
    obtain ⟨_, _, htakes, hread⟩ := (readMembers_cons_eq_ok_iff h).mp hread
    obtain ⟨-, rfl, rfl⟩ := (takes_foreign_iff hforeign).mp htakes
    exact ih hrest hread

end Record

/-! ## Records -/

/-- The slot describes the field of a record that is blank where nothing is said. -/
structure Slot.Fits {α : Type} (blank : α) (s : Slot Shape) (f : Field α) : Prop where
  name_eq : s.name = f.name
  keeps : Keeps f.read s.shape
  default_eq : ∀ v, s.default = some v →
    f.isRequired = false ∧ ∃ set, f.read v.doc = .ok set ∧ set blank = blank

section Fields

variable {α β γ : Type} {c : Codec α} {c' : Codec β} {shape : Shape} {name name' : String}
  {isRequired isRequired' : Bool} {get : γ → α} {set : α → γ → γ} {get' : γ → β} {set' : β → γ → γ}
  {blank : γ}

/-- Two fields are independent of each other if their setters are. -/
theorem Codec.field_commute (h : ∀ u v a, set u (set' v a) = set' v (set u a)) :
    (c.field name isRequired get set).Commute (c'.field name' isRequired' get' set') := by
  intro d e s t hs ht a
  obtain ⟨u, -, rfl⟩ := exists_of_map_eq_ok hs
  obtain ⟨v, -, rfl⟩ := exists_of_map_eq_ok ht
  exact h u v a

/-- A field keeps the layout of its values free if its codec does. -/
theorem Codec.keeps_field (h : Keeps c.read shape) :
    Keeps (c.field name isRequired get set).read shape := by
  intro d d' f hrelaid hread
  obtain ⟨a, ha, rfl⟩ := exists_of_map_eq_ok hread
  show (c.read d').map set = _
  rw [h hrelaid ha]
  rfl

/-- A required slot fits a required field. -/
theorem Slot.Fits.required (h : Keeps c.read shape) :
    (Slot.required name shape).Fits blank (c.field name true get set) where
  name_eq := rfl
  keeps := Codec.keeps_field h
  default_eq := nofun

/-- A field may be left out for the value that the blank record has there. -/
theorem Slot.Fits.optional (h : Keeps c.read shape) {v : Value} {a : α} (hv : c.read v.doc = .ok a)
    (hblank : set a blank = blank) :
    (Slot.optional name v shape).Fits blank (c.field name false get set) where
  name_eq := rfl
  keeps := Codec.keeps_field h
  default_eq := by
    intro w hw
    obtain rfl := Option.some.inj hw
    refine ⟨rfl, set a, ?_, hblank⟩
    show (c.read v.doc).map set = _
    rw [hv]
    rfl

end Fields

namespace Record

variable {α : Type} {r : Record α} {slots : List (Slot Shape)}

/-- Every slot describes a field of the record. -/
theorem exists_field {blank : α} {fields : List (Field α)}
    (hslots : List.Forall₂ (Slot.Fits blank) slots fields) {s : Slot Shape} (hs : s ∈ slots) :
    ∃ f ∈ fields, s.Fits blank f := by
  induction hslots with
  | nil => cases hs
  | @cons t f _ _ hfits _ ih =>
    obtain rfl | hs := List.mem_cons.mp hs
    · exact ⟨f, List.mem_cons_self .., hfits⟩
    · obtain ⟨g, hg, hfits⟩ := ih hs
      exact ⟨g, List.mem_cons_of_mem f hg, hfits⟩

/-- The slots have the names of the fields. -/
theorem map_name_eq {blank : α} {fields : List (Field α)}
    (hslots : List.Forall₂ (Slot.Fits blank) slots fields) :
    slots.map (·.name) = fields.map (·.name) := by
  induction hslots with
  | nil => rfl
  | cons hfits _ ih => rw [List.map_cons, List.map_cons, hfits.name_eq, ih]

/-- A name that is foreign to the slots is foreign to the record. -/
theorem name_ne_of_isForeign {blank : α} {fields : List (Field α)}
    (hslots : List.Forall₂ (Slot.Fits blank) slots fields) {name : String}
    (h : IsForeign slots name) : ∀ f ∈ fields, f.name ≠ name := by
  have hnames : name ∉ slots.map (·.name) := by simpa [IsForeign] using h
  rw [map_name_eq hslots] at hnames
  simpa using hnames

/-- An object with all fields in declared order is read like the array of their values. -/
theorem readItems_of_readMembers (h : r.IsOpen) {ds : List Doc}
    (hlength : ds.length = r.fields.length) {a : α}
    (hread : r.readMembers (.ofList ((r.fields.map fun f => some f.name).zip ds)) [] r.blank =
      .ok a) : r.readItems r.fields 0 (.ofList ds) r.blank = .ok a := by
  have hfst : (r.fields.zip ds).map Prod.fst = r.fields := List.map_fst_zip (by omega)
  have hsnd : (r.fields.zip ds).map Prod.snd = ds := List.map_snd_zip (by omega)
  have hitems := readItems_fields r (r.fields.zip ds) 0 r.blank
  have hmembers := readMembers_fields h.names (r.fields.zip ds) [] [] hfst.symm (by simp) r.blank
  rw [hfst, hsnd] at hitems
  rw [hitems, ← hmembers, ← hread, List.zip_map_left]
  rfl

/-- A change in the value at the position of a slot. -/
theorem readItems_congr {blank : α} {ss ss' : List (Slot Shape)} {s : Slot Shape}
    {fields : List (Field α)} (hslots : List.Forall₂ (Slot.Fits blank) (ss ++ s :: ss') fields)
    {before after : List Doc} (hlength : before.length = ss.length) {d d' : Doc}
    (hrelaid : Relaid s.shape d d') {index : Nat} {a b : α}
    (hread : r.readItems fields index (.ofList (before ++ d :: after)) a = .ok b) :
    r.readItems fields index (.ofList (before ++ d' :: after)) a = .ok b := by
  induction ss generalizing before fields index a with
  -- the change is in the value of the first field
  | nil =>
    obtain rfl := List.eq_nil_of_length_eq_zero hlength
    cases hslots with
    | cons hfits _ =>
      rw [List.nil_append, Items.ofList, readItems] at hread ⊢
      split at hread
      · cases hread
      · next hset =>
        rw [hfits.keeps hrelaid hset]
        exact hread
  -- the first field is set as before
  | cons t ss ih =>
    obtain ⟨e, before, rfl⟩ := List.exists_cons_of_length_pos (l := before) (by simp [hlength])
    cases hslots with
    | cons _ hslots =>
      rw [List.cons_append, Items.ofList, readItems] at hread ⊢
      split at hread
      · cases hread
      · next hset => exact ih hslots (Nat.succ.inj hlength) hread

/-- **A record is read alike in every layout** if its fields are. -/
theorem keeps_record (h : r.IsOpen)
    (hslots : List.Forall₂ (Slot.Fits r.blank) slots r.fields) : Keeps r.read (.record slots) := by
  intro d d' a hrelaid hread
  cases hrelaid with
  | permute hperm => exact readMembers_perm h hperm hread
  -- a key that is no field is taken wherever it is put
  | add hforeign hd =>
    refine readMembers_append h (fun hafter => ?_) _ hread
    have hforeign := name_ne_of_isForeign hslots hforeign
    exact (readMembers_cons_eq_ok_iff h).mpr ⟨_, _, .foreign hforeign hd, hafter⟩
  -- whatever its value was, and whatever it is now
  | replace hforeign hd =>
    refine readMembers_append h (fun hafter => ?_) _ hread
    have hforeign := name_ne_of_isForeign hslots hforeign
    obtain ⟨_, _, htakes, hafter⟩ := (readMembers_cons_eq_ok_iff h).mp hafter
    obtain ⟨-, rfl, rfl⟩ := (takes_foreign_iff hforeign).mp htakes
    exact (readMembers_cons_eq_ok_iff h).mpr ⟨_, _, .foreign hforeign hd, hafter⟩
  | @leaveOut _ before after s v hs hdefault =>
    obtain ⟨f, hf, hfits⟩ := exists_field hslots hs
    obtain ⟨hoptional, set, hset, hblank⟩ := hfits.default_eq v hdefault
    -- read first, the member leaves the blank record as it is
    have hfirst := readMembers_perm h List.perm_middle hread
    rw [hfits.name_eq] at hfirst
    obtain ⟨_, _, htakes, hrest⟩ := (readMembers_cons_eq_ok_iff h).mp hfirst
    obtain ⟨set', -, hset', rfl, rfl⟩ := (takes_field_iff h hf).mp htakes
    cases hset.symm.trans hset'
    rw [hblank] at hrest
    -- that it has not been seen does no harm, since it is not required
    refine readMembers_of_subset h (List.nil_subset _) ?_ hrest
    intro g hg hrequired hmem
    obtain rfl := List.inj_on_of_nodup_map h.names hg hf (List.mem_singleton.mp hmem)
    rw [hoptional] at hrequired
    cases hrequired
  | @asArray _ ds ms extras hlength hextras hperm =>
    have hsome : (slots.map fun s => some s.name) = r.fields.map fun f => some f.name := by
      simpa [Function.comp_def] using congrArg (List.map some) (map_name_eq hslots)
    rw [hsome] at hperm
    -- the members are put in declared order, then what is no field is dropped from the end
    have hordered := readMembers_perm h hperm hread
    have hfields := readMembers_append h (readMembers_extras h ?_) _ hordered
    · rw [List.append_nil] at hfields
      exact readItems_of_readMembers h (hlength.trans hslots.length_eq) hfields
    · intro m hm
      obtain ⟨name, hname, hforeign⟩ := hextras m hm
      exact ⟨name, hname, name_ne_of_isForeign hslots hforeign⟩
  -- the field is set to the same as before, since its value is read alike
  | @member _ before after s d d' hs hinner =>
    refine readMembers_append h (fun hafter => ?_) _ hread
    obtain ⟨f, hf, hfits⟩ := exists_field hslots hs
    rw [hfits.name_eq] at hafter ⊢
    obtain ⟨_, _, htakes, hafter⟩ := (readMembers_cons_eq_ok_iff h).mp hafter
    obtain ⟨set, hnew, hset, rfl, rfl⟩ := (takes_field_iff h hf).mp htakes
    have hset' := hfits.keeps hinner hset
    exact (readMembers_cons_eq_ok_iff h).mpr ⟨_, _, .field hf hnew hset', hafter⟩
  | element hlength hinner => exact readItems_congr hslots hlength hinner hread

end Record

end OntoWorlds.Json
