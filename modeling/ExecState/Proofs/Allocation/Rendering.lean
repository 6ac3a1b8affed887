import ExecState.Allocation.Document
import ExecState.Proofs.Json.Printing

/-!
# Documents of allocations

What the members of a document stand for, and what is left of them when the document is written
anew.
-/

namespace ExecState

/-!
## The members of a document

Reading an object member by member builds a map, or an entry, step by step. What comes of it can be
said without the steps: under a name stands what the last member of that name stands for
(`Json.Value.getElem?_of_toMap?`), and a part of an entry is what its field stands for, whether the
entry is an object or a list of its parts (`Entry.hasPart_field?`). The order of the members, and
members of other names, have no say in it.
-/

namespace Json.Value

/-- Whether a member of an object has a name. -/
def isNamed (name : String) (m : Literal × Value) : Bool := m.1.toString? = some name

/-- The last member of an object that has a name. -/
def member? (name : String) : Value → Option Value
  | object members => (members.reverse.find? (isNamed name)).map Prod.snd
  | _ => none

def names : Value → List String
  | object members => members.filterMap fun m ↦ m.1.toString?
  | _ => []

theorem mem_names_of_member? {name : String} {v x : Value} (h : v.member? name = some x) :
    name ∈ v.names := by
  cases v with
  | object members =>
    obtain ⟨p, hp, -⟩ := Option.map_eq_some_iff.mp h
    refine List.mem_filterMap.mpr ⟨p, List.mem_reverse.mp (List.mem_of_find?_eq_some hp), ?_⟩
    simpa [isNamed] using List.find?_some hp
  | _ => cases h

variable {α : Type} {read? : Value → Option α} {m m' : Std.ExtTreeMap String α}

theorem find?_reverse_cons (name : String) (p : Literal × Value)
    (members : List (Literal × Value)) :
    (p :: members).reverse.find? (isNamed name)
      = (members.reverse.find? (isNamed name)).or (if isNamed name p then some p else none) := by
  rw [List.reverse_cons, List.find?_append, List.find?_singleton]

theorem getElem?_addMembers? {members : List (Literal × Value)}
    (h : addMembers? read? members m = some m') (name : String) :
    m'[name]? = (members.reverse.find? (isNamed name)).elim m[name]? fun p ↦ read? p.2 := by
  induction members generalizing m with
  | nil =>
    cases h
    rfl
  | cons p members ih =>
    obtain ⟨literal, v⟩ := p
    rw [addMembers?] at h
    split at h
    · rename_i key a hkey ha
      rw [ih h, find?_reverse_cons, Std.ExtTreeMap.getElem?_insert]
      cases members.reverse.find? (isNamed name) with
      | some later => rfl
      | none =>
        by_cases hname : key = name
        · rw [if_pos (Std.LawfulEqCmp.compare_eq_iff_eq.mpr hname), isNamed, hkey, hname]
          simp [ha]
        · rw [if_neg fun hc ↦ hname (Std.LawfulEqCmp.compare_eq_iff_eq.mp hc), isNamed, hkey]
          simp [hname]
    · cases h

theorem isSome_of_mem_addMembers? {members : List (Literal × Value)}
    (h : addMembers? read? members m = some m') {p : Literal × Value} (hp : p ∈ members) :
    (read? p.2).isSome := by
  induction members generalizing m with
  | nil => cases hp
  | cons q members ih =>
    obtain ⟨literal, v⟩ := q
    rw [addMembers?] at h
    split at h
    · rename_i key a hkey ha
      obtain rfl | hp := List.mem_cons.mp hp
      · exact Option.isSome_of_eq_some ha
      · exact ih h hp
    · cases h

variable {v x : Value} {name : String}

/-- **Under a name stands what the last member of that name stands for.** -/
theorem getElem?_of_toMap? (h : v.toMap? read? = some m) (name : String) :
    m[name]? = (v.member? name).bind read? := by
  cases v with
  | object members =>
    rw [getElem?_addMembers? h, member?]
    cases members.reverse.find? (isNamed name) with
    | none => simp
    | some p => rfl
  | _ => cases h

theorem exists_of_member? (h : v.toMap? read? = some m) (hx : v.member? name = some x) :
    ∃ a, read? x = some a ∧ m[name]? = some a := by
  have hreads : (read? x).isSome := by
    cases v with
    | object members =>
      obtain ⟨p, hp, rfl⟩ := Option.map_eq_some_iff.mp hx
      exact isSome_of_mem_addMembers? h (List.mem_reverse.mp (List.mem_of_find?_eq_some hp))
    | _ => cases hx
  obtain ⟨a, ha⟩ := Option.isSome_iff_exists.mp hreads
  refine ⟨a, ha, ?_⟩
  rw [getElem?_of_toMap? h, hx]
  exact ha

end Json.Value

/-! ### The parts of an entry -/

namespace Entry

/-- What stands for a part that is not there. -/
def Part.absent : Part → Json.Value
  | storage => .object []
  | _ => .null

/-- The value of a part in an entry: a member of an object, or an item of a list. -/
def field? (p : Part) : Json.Value → Option Json.Value
  | .array items => ((Part.all.zip items).find? (·.1 = p)).map Prod.snd
  | x => x.member? p.name

/-- Whether a value stands for a part of an entry. -/
def HasPart (e : Entry) : Part → Json.Value → Prop
  | .balance, v => v.nullable? Quantity.ofJson? = some e.balance
  | .nonce, v => v.nullable? Quantity.ofJson? = some e.nonce
  | .code, v => v.nullable? Json.Value.text? = some e.code
  | .storage, v => v.toMap? Json.Value.text? = some e.storage

variable {e e' : Entry} {p q : Part} {v w : Json.Value}

theorem hasPart_empty (p : Part) : empty.HasPart p p.absent := by
  cases p <;> rfl

theorem hasPart_of_withPart? (h : e.withPart? v p = some e') : e'.HasPart p v := by
  cases p <;>
    · obtain ⟨part, hpart, rfl⟩ := Option.map_eq_some_iff.mp h
      exact hpart

theorem HasPart.of_withPart? (hw : e.HasPart q w) (h : e.withPart? v p = some e') (hpq : p ≠ q) :
    e'.HasPart q w := by
  cases p <;>
    · obtain ⟨part, -, rfl⟩ := Option.map_eq_some_iff.mp h
      cases q <;> first | exact hw | exact absurd rfl hpq

theorem ofName?_eq_some_iff {name : String} : Part.ofName? name = some p ↔ p.name = name := by
  refine ⟨fun h ↦ by simpa using List.find?_some h, ?_⟩
  rintro rfl
  cases p <;> decide

theorem isNamed_name {name : String} {literal : Json.Literal} (h : literal.toString? = some name)
    (p : Part) (v : Json.Value) :
    Json.Value.isNamed p.name (literal, v) = decide (Part.ofName? name = some p) := by
  rw [Json.Value.isNamed, h, decide_eq_decide, ofName?_eq_some_iff, Option.some_inj]
  exact eq_comm

/-- The last member of a part's name counts, and a part without members stays as it is. -/
theorem HasPart.of_ofObject? {seen : List Part} {members : List (Json.Literal × Json.Value)}
    (hv : e.HasPart p v) (h : ofObject? e seen members = some e') :
    e'.HasPart p ((members.reverse.find? (Json.Value.isNamed p.name)).elim v Prod.snd) := by
  induction members generalizing e seen v with
  | nil =>
    cases h
    exact hv
  | cons m members ih =>
    obtain ⟨literal, w⟩ := m
    rw [Json.Value.find?_reverse_cons]
    rw [ofObject?] at h
    split at h
    · cases h
    · rename_i name hname
      rw [isNamed_name hname]
      split at h
      · -- a member of another name is passed over
        rename_i hother
        rw [hother]
        simpa using ih hv h
      · rename_i q hq
        rw [hq]
        split at h
        · cases h
        · obtain ⟨e₁, he₁, hrest⟩ := Option.bind_eq_some_iff.mp h
          by_cases hqp : q = p
          · subst hqp
            have hmine := ih (hasPart_of_withPart? he₁) hrest
            cases hlast : members.reverse.find? (Json.Value.isNamed q.name) with
            | none => simpa [hlast] using hmine
            | some later => simpa [hlast] using hmine
          · simpa [hqp] using ih (hv.of_withPart? he₁ hqp) hrest

/-- The item at a part's place counts, and a part whose place is cut off stays as it is. -/
theorem HasPart.of_ofArray? {parts : List Part} {items : List Json.Value} (hnodup : parts.Nodup)
    (hv : e.HasPart p v) (h : ofArray? e parts items = some e') :
    e'.HasPart p (((parts.zip items).find? (·.1 = p)).elim v Prod.snd) := by
  induction items generalizing e parts v with
  | nil =>
    rw [ofArray?] at h
    cases h
    rw [List.zip_nil_right]
    exact hv
  | cons w items ih =>
    cases parts with
    | nil => cases h
    | cons q parts =>
      obtain ⟨e₁, he₁, hrest⟩ := Option.bind_eq_some_iff.mp h
      obtain ⟨hfirst, hparts⟩ := List.nodup_cons.mp hnodup
      rw [List.zip_cons_cons]
      by_cases hqp : q = p
      · have hnone : (parts.zip items).find? (·.1 = p) = none := by
          rw [List.find?_eq_none]
          rintro ⟨r, x⟩ hmem
          have hr : r ∈ parts := (List.of_mem_zip hmem).1
          simpa using fun hrp : r = p ↦ hfirst (hqp ▸ hrp ▸ hr)
        have hmine := ih hparts (hqp ▸ hasPart_of_withPart? he₁) hrest
        rw [hnone] at hmine
        rw [List.find?_cons_of_pos (by simpa using hqp)]
        exact hmine
      · rw [List.find?_cons_of_neg (by simpa using hqp)]
        exact ih hparts (hv.of_withPart? he₁ hqp) hrest

/-- **A part of an entry is what its field stands for,** or what stands for an absent part. -/
theorem hasPart_field? {x : Json.Value} (h : ofJson? x = some e) (p : Part) :
    e.HasPart p ((field? p x).getD p.absent) := by
  cases x with
  | object members =>
    have hpart := (hasPart_empty p).of_ofObject? h
    show e.HasPart p (((members.reverse.find? (Json.Value.isNamed p.name)).map Prod.snd).getD
      p.absent)
    cases hlast : members.reverse.find? (Json.Value.isNamed p.name) with
    | none => simpa [hlast] using hpart
    | some last => simpa [hlast] using hpart
  | array items =>
    have hpart := (hasPart_empty p).of_ofArray? (by decide) h
    rw [field?]
    cases hitem : (Part.all.zip items).find? (·.1 = p) with
    | none => simpa [hitem] using hpart
    | some item => simpa [hitem] using hpart
  | _ => cases h

end Entry

namespace Json.Value

/-!
## Writing an allocation and reading it back

An allocation is kept as it was read: keys as texts, quantities as numbers or as texts, and nothing
of it normalised. So it can be written and read again without a loss (`Allocation.ofText?_render`),
and what is loaded from a document is loaded from the rewritten one as well, the error included.

Reading is more liberal than writing, so the way back is not the other one: a document is rewritten
to another text in general.
-/

variable {α : Type} {read? : Value → Option α} {write : α → Value}

/-! ### Optional data and maps -/

theorem nullable?_orNull (hnull : ∀ a, write a ≠ .null) (h : ∀ a, read? (write a) = some a)
    (o : Option α) : nullable? read? (orNull write o) = some o := by
  cases o with
  | none => rfl
  | some a =>
    rw [orNull, nullable?]
    · rw [h]
      rfl
    · exact fun hwrite ↦ hnull a hwrite

theorem addMembers?_map (h : ∀ a, read? (write a) = some a) (entries : List (String × α))
    (m : Std.ExtTreeMap String α) :
    addMembers? read? (entries.map fun p ↦ (Literal.ofString p.1, write p.2)) m
      = some (m.insertMany entries) := by
  induction entries generalizing m with
  | nil => rfl
  | cons p entries ih =>
    rw [List.map_cons, addMembers?, Literal.toString?_ofString, h]
    exact (ih _).trans (by rw [← Std.ExtTreeMap.insertMany_cons])

theorem insertMany_toList (m : Std.ExtTreeMap String α) :
    (∅ : Std.ExtTreeMap String α).insertMany m.toList = m := by
  refine Std.ExtTreeMap.ext_getElem? fun k ↦ ?_
  cases hk : m[k]? with
  | some a =>
    exact Std.ExtTreeMap.getElem?_insertMany_list_of_mem Std.ReflCmp.compare_self
      Std.ExtTreeMap.distinct_keys_toList (Std.ExtTreeMap.mem_toList_iff_getElem?_eq_some.mpr hk)
  | none =>
    have habsent : (m.toList.map Prod.fst).contains k = false := by
      rw [Std.ExtTreeMap.map_fst_toList_eq_keys]
      simpa using hk
    rw [Std.ExtTreeMap.getElem?_insertMany_list_of_contains_eq_false habsent]
    exact Std.ExtTreeMap.getElem?_empty

theorem toMap?_ofMap (h : ∀ a, read? (write a) = some a) (m : Std.ExtTreeMap String α) :
    (ofMap write m).toMap? read? = some m := by
  rw [ofMap, toMap?, addMembers?_map h, insertMany_toList]

theorem isPlain_orNull (h : ∀ a, (write a).IsPlain) (o : Option α) :
    (orNull write o).IsPlain := by
  cases o with
  | none => exact .null
  | some a => exact h a

theorem isPlain_ofMap (h : ∀ a, (write a).IsPlain) (m : Std.ExtTreeMap String α) :
    (ofMap write m).IsPlain := by
  constructor
  · intro p hp
    obtain ⟨entry, -, rfl⟩ := List.mem_map.mp hp
    exact ⟨entry.1, rfl⟩
  · intro p hp
    obtain ⟨entry, -, rfl⟩ := List.mem_map.mp hp
    exact h entry.2

end Json.Value

/-! ### Quantities and entries -/

namespace Quantity

theorem ofJson?_toJson (q : Quantity) : ofJson? q.toJson = some q := by
  cases q with
  | number n =>
    rw [toJson, ofJson?, Json.natural?_repr]
    exact (if_pos n.toNat_lt_size).trans (by rw [UInt64.ofNat_toNat])
  | text s => rw [toJson, ofJson?, Json.Value.text?_ofText]

theorem toJson_ne_null (q : Quantity) : q.toJson ≠ .null := by
  cases q <;> simp [toJson, Json.Value.ofText]

theorem isPlain_toJson (q : Quantity) : q.toJson.IsPlain := by
  cases q with
  | number n => exact .number (Toml.isNumeral_repr _)
  | text s => exact .text s

end Quantity

namespace Entry

/-- The entry that has one part from another one. -/
def withPartOf (e e' : Entry) : Part → Entry
  | .balance => { e with balance := e'.balance }
  | .nonce => { e with nonce := e'.nonce }
  | .code => { e with code := e'.code }
  | .storage => { e with storage := e'.storage }

theorem withPart?_partToJson (e e' : Entry) (p : Part) :
    e.withPart? (e'.partToJson p) p = some (e.withPartOf e' p) := by
  have hquantity := Json.Value.nullable?_orNull Quantity.toJson_ne_null Quantity.ofJson?_toJson
  have hne : ∀ s, Json.Value.ofText s ≠ .null := fun s ↦ by simp [Json.Value.ofText]
  have htext := Json.Value.nullable?_orNull hne Json.Value.text?_ofText
  cases p with
  | balance => rw [partToJson, withPart?, hquantity]; rfl
  | nonce => rw [partToJson, withPart?, hquantity]; rfl
  | code => rw [partToJson, withPart?, htext]; rfl
  | storage => rw [partToJson, withPart?, Json.Value.toMap?_ofMap Json.Value.text?_ofText]; rfl

theorem ofObject?_parts (e' : Entry) {parts : List Part} (hnodup : parts.Nodup) (e : Entry)
    {seen : List Part} (hseen : ∀ p ∈ parts, p ∉ seen) :
    ofObject? e seen (parts.map fun p ↦ (Json.Literal.ofString p.name, e'.partToJson p))
      = some (parts.foldl (withPartOf · e' ·) e) := by
  induction parts generalizing e seen with
  | nil => rfl
  | cons p parts ih =>
    obtain ⟨hp, hparts⟩ := List.nodup_cons.mp hnodup
    have hrest : ∀ q ∈ parts, q ∉ p :: seen := by
      intro q hq hmem
      rcases List.mem_cons.mp hmem with rfl | hmem
      · exact hp hq
      · exact hseen q (List.mem_cons_of_mem p hq) hmem
    rw [List.map_cons, ofObject?, Json.Literal.toString?_ofString]
    dsimp only
    rw [ofName?_eq_some_iff.mpr rfl]
    dsimp only
    rw [if_neg (hseen p List.mem_cons_self), withPart?_partToJson, Option.bind_some,
      ih hparts _ hrest]
    rfl

theorem ofJson?_toJson (e : Entry) : ofJson? e.toJson = some e :=
  ofObject?_parts e (by decide) empty (by simp)

theorem isPlain_toJson (e : Entry) : e.toJson.IsPlain := by
  have hpart : ∀ p, (e.partToJson p).IsPlain := by
    intro p
    cases p with
    | balance => exact Json.Value.isPlain_orNull Quantity.isPlain_toJson _
    | nonce => exact Json.Value.isPlain_orNull Quantity.isPlain_toJson _
    | code => exact Json.Value.isPlain_orNull .text _
    | storage => exact Json.Value.isPlain_ofMap .text _
  constructor
  · intro m hm
    obtain ⟨p, -, rfl⟩ := List.mem_map.mp hm
    exact ⟨p.name, rfl⟩
  · intro m hm
    obtain ⟨p, -, rfl⟩ := List.mem_map.mp hm
    exact hpart p

end Entry

/-! ### Allocations -/

namespace Allocation

theorem ofText?_render (a : Allocation) : ofText? a.render = some a := by
  have hplain : a.toJson.IsPlain := Json.Value.isPlain_ofMap Entry.isPlain_toJson a
  rw [ofText?, render, Json.read?_print hplain, Option.bind_some, ofJson?, toJson,
    Json.Value.toMap?_ofMap Entry.ofJson?_toJson]

/-- **An allocation survives being written and read.** Every allocation reads as it was written, and
so a document that reads as an allocation and what it is rewritten to load alike: they lead to the
same world state, or to the same error. -/
theorem rewritten_loads_alike :
    (∀ a : Allocation, ofText? a.render = some a) ∧
      ∀ text a, ofText? text = some a →
        WorldState.ofAllocationText a.render = WorldState.ofAllocationText text := by
  refine ⟨ofText?_render, ?_⟩
  intro text a htext
  rw [WorldState.ofAllocationText, WorldState.ofAllocationText, ofText?_render, htext]

/-- A document with an escaped blank in a key, an entry that is a list, a name that occurs twice and
a member that is passed over. -/
def looseText : String :=
  "\x7b\"0x1\": \x7b\"balance\": 1\x7d," ++
    " \"\\u00a00x1\": [\"0x10\", 7, null, \x7b\"0X2\": \"\\n2a\"\x7d],\n" ++
    " \"0x1\": \x7b\"nonce\": \"5\", \"kind\": []\x7d\x7d"

def loose : Allocation :=
  .ofList [("0x1", { Entry.empty with nonce := some (.text "5") }),
    ("\u00a00x1", ⟨some (.text "0x10"), some (.number 7), none, .ofList [("0X2", "\n2a")]⟩)]

theorem rewritten_loads_alike_loose :
    ofText? looseText = some loose ∧
      WorldState.ofAllocationText loose.render = WorldState.ofAllocationText looseText := by
  have hread : ofText? looseText = some loose := by decide +kernel
  exact ⟨hread, rewritten_loads_alike.2 looseText loose hread⟩

end Allocation

end ExecState
