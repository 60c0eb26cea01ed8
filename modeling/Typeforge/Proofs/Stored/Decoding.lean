/-
# `Typeforge.Proofs.Stored.Decoding` — documents that values come back from

A value comes back from its stored form when the decoder finds it there, whether the
document stands in a text or was held back, and when the stored form has a text at all.
This is one relation, between a decoder, a document and a value, and each way of putting
stored forms together has a rule for it: lists item by item, records member by member,
alternatives by name.

A record is the delicate case.  A decoder fills it from the members in the order they are
written, so the rule follows the members and says what has been filled after each.
-/
import Typeforge.Proofs.Documents.Printed

namespace Typeforge

/-! ## Depth -/

namespace Json

@[simp]
theorem depth_bool (b : Bool) : (bool b).depth = 0 := rfl

@[simp]
theorem depth_string (s : String) : (string s).depth = 0 := rfl

@[simp]
theorem depth_ofNat (n : Nat) : (ofNat n).depth = 0 := rfl

theorem string_ne_null (s : String) : string s ≠ null := Json.noConfusion

theorem depth_array_cons_le {j : Json} {rest : List Json} {d : Nat} :
    (array (j :: rest)).depth ≤ d ↔ j.depth < d ∧ (array rest).depth ≤ d := by
  change max j.depth (RawJson.itemsDepth (RawJson.itemsOfJson rest)) + 1 ≤ d ↔
    j.depth < d ∧ RawJson.itemsDepth (RawJson.itemsOfJson rest) + 1 ≤ d
  omega

theorem depth_le_of_mem_array {j : Json} {items : List Json} (hj : j ∈ items) {d : Nat}
    (h : (array items).depth ≤ d) : j.depth ≤ d := by
  induction items with
  | nil => cases hj
  | cons k rest ih =>
    obtain ⟨hk, hrest⟩ := depth_array_cons_le.mp h
    rcases List.mem_cons.mp hj with rfl | hj
    · exact hk.le
    · exact ih hj hrest

theorem depth_array_le_succ {items : List Json} {d : Nat} (h : ∀ j ∈ items, j.depth ≤ d) :
    (array items).depth ≤ d + 1 := by
  induction items with
  | nil => exact Nat.succ_le_succ (Nat.zero_le d)
  | cons j rest ih =>
    exact depth_array_cons_le.mpr ⟨Nat.lt_succ_of_le (h j List.mem_cons_self),
      ih fun k hk => h k (List.mem_cons_of_mem _ hk)⟩

theorem depth_object_cons_le {name : String} {j : Json} {rest : List (String × Json)} {d : Nat} :
    (object ((name, j) :: rest)).depth ≤ d ↔ j.depth < d ∧ (object rest).depth ≤ d := by
  change max j.depth (RawJson.membersDepth (RawJson.membersOfJson rest)) + 1 ≤ d ↔
    j.depth < d ∧ RawJson.membersDepth (RawJson.membersOfJson rest) + 1 ≤ d
  omega

theorem depth_object_le_succ {members : List (String × Json)} {d : Nat}
    (h : ∀ m ∈ members, m.2.depth ≤ d) : (object members).depth ≤ d + 1 := by
  induction members with
  | nil => exact Nat.succ_le_succ (Nat.zero_le d)
  | cons m rest ih =>
    exact depth_object_cons_le.mpr ⟨Nat.lt_succ_of_le (h m List.mem_cons_self),
      ih fun n hn => h n (List.mem_cons_of_mem _ hn)⟩

end Json

namespace Decode

variable {α β σ : Type}

/-! ## The relation -/

/-- Whether a decoder finds a value in a document, in the text as well as in a form held back. -/
structure Restores (decode : Decoder α) (j : Json) (a : α) : Prop where
  printable : j.isPrintable = true
  decodes : ∀ held, decode ⟨.ofJson j, held⟩ = .ok a

/-- What comes back from a document comes back from its text. -/
theorem Restores.text_eq {decode : Decoder α} {j : Json} {a : α} (h : Restores decode j a)
    (shallow : j.depth ≤ Json.depthLimit) : Decode.text decode j.text = .ok a :=
  (Decode.text_eq decode h.printable shallow).trans (h.decodes false)

theorem Restores.map {decode : Decoder α} {j : Json} {a : α} (h : Restores decode j a)
    (f : α → β) : Restores (fun source => (decode source).map f) j (f a) :=
  ⟨h.printable, fun held => Except.map_eq_ok.mpr ⟨a, h.decodes held, rfl⟩⟩

/-- A decoder that goes on with what another has found. -/
theorem Restores.bind {decode : Decoder α} {j : Json} {a : α} {b : β} (h : Restores decode j a)
    {next : α → Decoded β} (hnext : next a = .ok b) :
    Restores (fun source => decode source >>= next) j b :=
  ⟨h.printable, fun held => Except.bind_eq_ok.mpr ⟨a, h.decodes held, hnext⟩⟩

/-! ## Leaves -/

theorem restores_bool (b : Bool) : Restores bool (.bool b) b := ⟨rfl, fun _ => rfl⟩

theorem restores_string (s : String) : Restores string (.string s) s := ⟨rfl, fun _ => rfl⟩

theorem restores_float {x : Float} (h : x.isFinite = true) :
    Restores float (.number (.real x)) x := ⟨h, fun _ => rfl⟩

theorem restores_natBelow {n bound : Nat} (h : n < bound) (hbound : bound ≤ Nat.pow 2 64) :
    Restores (natBelow bound) (.ofNat n) n := by
  have fits : Json.fitsInteger n = true :=
    decide_eq_true ⟨by omega, by exact_mod_cast h.trans_le hbound⟩
  exact ⟨fits, fun held => if_pos ⟨Int.natCast_nonneg n, by exact_mod_cast h⟩⟩

theorem restores_nat64 {n : Nat} (h : n < Nat.pow 2 64) : Restores nat64 (.ofNat n) n :=
  restores_natBelow h le_rfl

theorem restores_none (decode : Decoder α) : Restores (optional decode) .null none :=
  ⟨rfl, fun _ => rfl⟩

theorem restores_some {decode : Decoder α} {j : Json} {a : α} (h : Restores decode j a)
    (nonnull : j ≠ .null) : Restores (optional decode) j (some a) := by
  refine ⟨h.printable, fun held => ?_⟩
  have hmap : optional decode ⟨.ofJson j, held⟩ = (decode ⟨.ofJson j, held⟩).map some := by
    cases j with
    | null => exact absurd rfl nonnull
    | bool _ | number _ | string _ | array _ | object _ => rfl
  rw [hmap, h.decodes held]
  rfl

/-! ## Arrays and tables -/

theorem itemsPrintable_of_restores {decode : Decoder α} {js : List Json} {as : List α}
    (h : List.Forall₂ (Restores decode) js as) : Json.itemsPrintable js = true := by
  induction h with
  | nil => rfl
  | cons h _ ih => rw [Json.itemsPrintable, h.printable, ih, Bool.and_self]

theorem itemsFrom_of_restores {decode : Decoder α} {js : List Json} {as : List α}
    (h : List.Forall₂ (Restores decode) js as) (held : Bool) (i : Nat) :
    itemsFrom decode held i (RawJson.itemsOfJson js) = .ok as := by
  induction h generalizing i with
  | nil => rfl
  | cons h _ ih =>
    rw [RawJson.itemsOfJson, itemsFrom, h.decodes held, ih]
    rfl

theorem restores_list {decode : Decoder α} {js : List Json} {as : List α}
    (h : List.Forall₂ (Restores decode) js as) : Restores (list decode) (.array js) as :=
  ⟨itemsPrintable_of_restores h, fun held => itemsFrom_of_restores h held 0⟩

theorem restores_list_map {decode : Decoder α} {toJson : α → Json} {as : List α}
    (h : ∀ a ∈ as, Restores decode (toJson a) a) :
    Restores (list decode) (.array (as.map toJson)) as := by
  refine restores_list ?_
  induction as with
  | nil => exact .nil
  | cons a as ih =>
    exact .cons (h a List.mem_cons_self) (ih fun b hb => h b (List.mem_cons_of_mem _ hb))

theorem restores_pair {first : Decoder α} {second : Decoder β} {j k : Json} {a : α} {b : β}
    (ha : Restores first j a) (hb : Restores second k b) :
    Restores (pair first second) (.array [j, k]) (a, b) := by
  refine ⟨?_, fun held => ?_⟩
  · rw [Json.isPrintable, Json.itemsPrintable, Json.itemsPrintable, ha.printable, hb.printable]
    rfl
  · change (under (.index 0) (first ⟨.ofJson j, held⟩) >>= _) = _
    rw [ha.decodes held]
    change (under (.index 1) (second ⟨.ofJson k, held⟩) >>= _) = _
    rw [hb.decodes held]
    rfl

theorem entries_of_restores {decode : Decoder α} {toJson : α → Json} {members : Members α}
    (h : ∀ m ∈ members, Restores decode (toJson m.2) m.2) (held : Bool) :
    Json.membersPrintable (members.map fun m => (m.1, toJson m.2)) = true ∧
      entries decode held (RawJson.membersOfJson (members.map fun m => (m.1, toJson m.2))) =
        .ok members := by
  induction members with
  | nil => exact ⟨rfl, rfl⟩
  | cons m rest ih =>
    have hfirst := h m List.mem_cons_self
    obtain ⟨printable, hrest⟩ := ih fun n hn => h n (List.mem_cons_of_mem _ hn)
    refine ⟨?_, ?_⟩
    · rw [List.map_cons, Json.membersPrintable, hfirst.printable, printable, Bool.and_self]
    · rw [List.map_cons, RawJson.membersOfJson, entries, hfirst.decodes held, hrest]
      rfl

/-- A table comes back in its order. -/
theorem restores_table {decode : Decoder α} {toJson : α → Json} {members : Members α}
    (distinct : (members.map Prod.fst).Nodup)
    (h : ∀ m ∈ members, Restores decode (toJson m.2) m.2) :
    Restores (table decode) (.object (members.map fun m => (m.1, toJson m.2))) members := by
  refine ⟨(entries_of_restores h false).1, fun held => ?_⟩
  change (entries decode held (RawJson.membersOfJson _)).map Members.ofList = _
  rw [(entries_of_restores h held).2]
  exact congrArg Except.ok (Json.ofList_eq distinct)

/-! ## Records -/

/-- Whether names are known ones, each at most once and none of them seen before. -/
def admits (names : List String) : List String → List String → Bool
  | _, [] => true
  | seen, k :: rest => names.contains k && !seen.contains k && admits names (k :: seen) rest

/-- What is filled of a record by members, one after the other. -/
inductive Fills (fill : Filler σ) : σ → List (String × Json) → σ → Prop where
  | nil {s : σ} : Fills fill s [] s
  | cons {s s' s'' : σ} {name : String} {j : Json} {rest : List (String × Json)}
      (printable : j.isPrintable = true) (filled : ∀ held, fill s name ⟨.ofJson j, held⟩ = .ok s')
      (others : Fills fill s' rest s'') : Fills fill s ((name, j) :: rest) s''

namespace Fills

variable {fill : Filler σ} {s s' s'' : σ} {name : String} {j : Json} {members : List (String × Json)}

/-- A member whose decoder is followed by an entry in the record. -/
theorem member {decode : Decoder α} {a : α} {enter : α → σ} (h : Restores decode j a)
    (hfill : ∀ source, fill s name source = decode source >>= fun x => pure (enter x))
    (others : Fills fill (enter a) members s') : Fills fill s ((name, j) :: members) s' :=
  .cons h.printable (fun held => by rw [hfill, h.decodes held]; rfl) others

theorem printable (h : Fills fill s members s') : Json.membersPrintable members = true := by
  induction h with
  | nil => rfl
  | cons printable _ _ ih => rw [Json.membersPrintable, printable, ih, Bool.and_self]

/-- Members with known and different names fill the record. -/
theorem fillMembers_eq (h : Fills fill s members s') {names : List String} {seen : List String}
    (admitted : admits names seen (members.map Prod.fst) = true) (held : Bool) :
    fillMembers names fill held seen s (RawJson.membersOfJson members) = .ok s' := by
  induction h generalizing seen with
  | nil => rfl
  | cons _ filled _ ih =>
    rw [List.map_cons, admits, Bool.and_eq_true, Bool.and_eq_true, Bool.not_eq_true'] at admitted
    obtain ⟨⟨known, fresh⟩, admitted⟩ := admitted
    rw [RawJson.membersOfJson, fillMembers, if_pos known, fresh, if_neg Bool.false_ne_true,
      filled held]
    exact ih admitted

theorem record {names : List String} (h : Fills fill s members s')
    (admitted : admits names [] (members.map Prod.fst) = true) :
    Restores (Decode.record names fill s) (.object members) s' :=
  ⟨h.printable, fun held => h.fillMembers_eq admitted held⟩

theorem recordWithDefaults {names : List String} (h : Fills fill s members s')
    (admitted : admits names [] (members.map Prod.fst) = true) :
    Restores (Decode.recordWithDefaults names fill s) (.object members) s' :=
  ⟨h.printable, fun held => h.fillMembers_eq admitted held⟩

end Fills

/-! ## Flat objects

A record may stand in one object with others, and finds its own members there by name.
-/

theorem membersOfJson_append (members others : List (String × Json)) :
    RawJson.membersOfJson (members ++ others) =
      RawJson.membersOfJson members ++ RawJson.membersOfJson others := by
  induction members with
  | nil => rfl
  | cons m rest ih => rw [List.cons_append, RawJson.membersOfJson, RawJson.membersOfJson, ih]; rfl

theorem membersPrintable_append (members others : List (String × Json)) :
    Json.membersPrintable (members ++ others) =
      (Json.membersPrintable members && Json.membersPrintable others) := by
  induction members with
  | nil => rfl
  | cons m rest ih =>
    rw [List.cons_append, Json.membersPrintable, Json.membersPrintable, ih, Bool.and_assoc]

theorem filter_membersOfJson {name : String} {members : List (String × Json)}
    (h : ∀ m ∈ members, m.1 ≠ name) : (RawJson.membersOfJson members).filter (fun m => m.1 != name) =
      RawJson.membersOfJson members := by
  induction members with
  | nil => rfl
  | cons m rest ih =>
    have hne : (m.1 != name) = true := bne_iff_ne.mpr (h m List.mem_cons_self)
    rw [RawJson.membersOfJson, List.filter_cons, if_pos hne,
      ih fun n hn => h n (List.mem_cons_of_mem _ hn)]

/-! ## Alternatives -/

section Alternatives

variable {bare : List (String × α)} {names : List String} {content : String → Decoder α}
  {name : String} {a : α}

/-- An alternative without content. -/
theorem restores_bare (found : Members.get? name bare = some a) :
    Restores (variant bare names content) (.string name) a := by
  refine ⟨rfl, fun held => ?_⟩
  rw [RawJson.ofJson, variant, choice]
  dsimp only
  rw [found]
  rfl

/-- An alternative with content. -/
theorem restores_named {j : Json} (absent : Members.get? name bare = none)
    (known : names.contains name = true) (h : Restores (content name) j a) :
    Restores (variant bare names content) (.object [(name, j)]) a := by
  refine ⟨?_, fun held => ?_⟩
  · rw [Json.isPrintable, Json.membersPrintable, h.printable]
    rfl
  · rw [RawJson.ofJson, RawJson.membersOfJson, variant, choice]
    dsimp only
    rw [absent]
    dsimp only
    rw [if_pos known, h.decodes held]
    rfl

theorem restores_oneOf {options : List (String × α)} (found : Members.get? name options = some a) :
    Restores (oneOf options) (.string name) a := restores_bare found

end Alternatives

theorem identifier_string {options : List (String × α)} {name : String} {a : α}
    (found : Members.get? name options = some a) (held : Bool) :
    identifier options ⟨.string name, held⟩ = .ok a := by
  rw [identifier, found]

/-- A record of a tag and the content it calls for. -/
theorem restores_tagged {tagName contentName : String} {tags : List (String × α)}
    {content : α → Decoder β} {name : String} {t : α} {j : Json} {b : β}
    (ne : contentName ≠ tagName) (found : Members.get? name tags = some t)
    (h : Restores (content t) j b) :
    Restores (tagged tagName contentName tags content)
      (.object [(tagName, .string name), (contentName, j)]) b := by
  refine ⟨?_, fun held => ?_⟩
  · rw [Json.isPrintable, Json.membersPrintable, Json.membersPrintable, h.printable]
    rfl
  · have hfilter : (RawJson.membersOfJson [(tagName, .string name), (contentName, j)]).filter
        (fun m => m.1 == tagName || m.1 == contentName) =
        [(tagName, .string name), (contentName, .ofJson j)] := by
      simp [RawJson.membersOfJson, RawJson.ofJson]
    have htag := (restores_oneOf found).decodes held
    rw [RawJson.ofJson] at htag
    rw [RawJson.ofJson, tagged]
    rw [hfilter]
    simp only [if_true, htag]
    change (if contentName = tagName then _
      else under (.key contentName) (content t ⟨.ofJson j, held⟩) >>= _) = _
    rw [if_neg ne, h.decodes held]
    rfl

end Decode

end Typeforge
