/-
# `Typeforge.Proofs.Stored.Graphs` — a stored type graph comes back

The text of a graph is read as the graph, its nodes and its roots in their order.  A node
is one flat object, in which the name of its kind, the fields of that kind and the name of
the type stand side by side.  No field has the name of either of the other two, so each
part of the decoder finds its own members and passes over the rest; and each kind writes
just the fields that its form reads.

A stored graph is never deep: what refers to a node is a number.  So what
`TypeGraph.ofText_toJson_text` asks is nothing about the reader: references and literals
have stored forms, and no two roots have one name (`TypeGraph.Storable`).
-/
import Typeforge.Graph.Json
import Typeforge.Proofs.Stored.Literals

namespace Typeforge

open Decode

/-! ## What can be stored -/

/-- Whether a reference can be stored; its place has thirty-two bits. -/
def TypeId.isStorable (t : TypeId) : Bool := decide (t.index < Nat.pow 2 32)

/-- Whether the literal of a kind can be stored, if it has one. -/
def TypeKind.hasStorableLiteral : TypeKind → Bool
  | literal value | enumMember _ value => value.isStorable
  | _ => true

/-- Whether a kind can be stored. -/
def TypeKind.isStorable (kind : TypeKind) : Bool :=
  kind.children.all TypeId.isStorable && kind.hasStorableLiteral

/-- A graph whose nodes and roots can be stored and whose roots have different names. -/
structure TypeGraph.Storable (g : TypeGraph) : Prop where
  nodes : ∀ node ∈ g.nodes.toList, node.kind.isStorable = true
  roots : ∀ root ∈ g.roots, root.2.isStorable = true
  names : (g.roots.map Prod.fst).Nodup

/-! ## References -/

theorem TypeId.restores {t : TypeId} (h : t.isStorable = true) : Restores decode t.toJson t :=
  (restores_natBelow (of_decide_eq_true h) (Nat.pow_le_pow_right two_pos (by omega : 32 ≤ 64))).map mk

theorem restores_ids {ids : List TypeId} (h : ∀ t ∈ ids, t.isStorable = true) :
    Restores (Decode.list TypeId.decode) (TypeKind.idsToJson ids) ids :=
  restores_list_map fun t ht => TypeId.restores (h t ht)

/-- The parameters and the result of a function. -/
theorem restores_signature {params : List TypeId} {result : TypeId}
    (h : ∀ t ∈ params ++ [result], t.isStorable = true) :
    Restores (Decode.list TypeId.decode) (TypeKind.idsToJson params) params ∧
      Restores TypeId.decode result.toJson result :=
  ⟨restores_ids fun t ht => h t (List.mem_append_left _ ht),
    TypeId.restores (h result (List.mem_append_right _ List.mem_cons_self))⟩

/-! ## Kinds -/

namespace TypeKind

theorem restores_plain (kind : TypeKind) : Restores (Form.plain kind).decode (.object []) kind :=
  (Fills.recordWithDefaults .nil rfl).bind rfl

/-- The fields of a kind are read by its form. -/
theorem exists_form {kind : TypeKind} (h : kind.isStorable = true) :
    ∃ form, Members.get? kind.name forms = some form ∧
      Restores form.decode (.object kind.fields) kind := by
  obtain ⟨hchildren, hliteral⟩ := Bool.and_eq_true_iff.mp h
  replace hchildren := List.all_eq_true.mp hchildren
  cases kind with
  | never | any | unknown | void | object | string | number | boolean | symbol | bigint | null
  | undefined | regexp => exact ⟨_, rfl, restores_plain _⟩
  | literal value =>
    exact ⟨_, rfl, (Fills.recordWithDefaults
      (.member (Literal.restores_decode hliteral) (fun _ => rfl) .nil) rfl).bind rfl⟩
  | array item =>
    have hitem := TypeId.restores (hchildren item List.mem_cons_self)
    exact ⟨_, rfl, (Fills.recordWithDefaults (.member hitem (fun _ => rfl) .nil) rfl).bind rfl⟩
  | tuple members | objectLiteral members | union members | intersection members
  | enumeration members =>
    exact ⟨_, rfl, (Fills.recordWithDefaults
      (.member (restores_ids hchildren) (fun _ => rfl) .nil) rfl).bind rfl⟩
  | tupleMember type isOptional name? =>
    have htype := TypeId.restores (hchildren type List.mem_cons_self)
    cases name? with
    | none =>
      exact ⟨_, rfl, (Fills.recordWithDefaults (.member htype (fun _ => rfl)
        (.member (restores_bool isOptional) (fun _ => rfl) .nil)) rfl).bind rfl⟩
    | some name =>
      exact ⟨_, rfl, (Fills.recordWithDefaults (.member htype (fun _ => rfl)
        (.member (restores_bool isOptional) (fun _ => rfl)
          (.member (restores_some (restores_string name) (Json.string_ne_null name)) (fun _ => rfl)
            .nil))) rfl).bind rfl⟩
  | rest type | promise type =>
    have htype := TypeId.restores (hchildren type List.mem_cons_self)
    exact ⟨_, rfl, (Fills.recordWithDefaults (.member htype (fun _ => rfl) .nil) rfl).bind rfl⟩
  | property name type isOptional readonly =>
    have htype := TypeId.restores (hchildren type List.mem_cons_self)
    exact ⟨_, rfl, (Fills.recordWithDefaults (.member (restores_string name) (fun _ => rfl)
      (.member htype (fun _ => rfl) (.member (restores_bool isOptional) (fun _ => rfl)
        (.member (restores_bool readonly) (fun _ => rfl) .nil)))) rfl).bind rfl⟩
  | indexSignature key type =>
    have hkey := TypeId.restores (hchildren key List.mem_cons_self)
    have htype := TypeId.restores (hchildren type (List.mem_cons_of_mem _ List.mem_cons_self))
    exact ⟨_, rfl, (Fills.recordWithDefaults (.member hkey (fun _ => rfl)
      (.member htype (fun _ => rfl) .nil)) rfl).bind rfl⟩
  | function name? params result =>
    obtain ⟨hparams, hresult⟩ := restores_signature hchildren
    cases name? with
    | none =>
      exact ⟨_, rfl, (Fills.recordWithDefaults (.member hparams (fun _ => rfl)
        (.member hresult (fun _ => rfl) .nil)) rfl).bind rfl⟩
    | some name =>
      exact ⟨_, rfl, (Fills.recordWithDefaults
        (.member (restores_some (restores_string name) (Json.string_ne_null name)) (fun _ => rfl)
          (.member hparams (fun _ => rfl) (.member hresult (fun _ => rfl) .nil))) rfl).bind rfl⟩
  | method name params result isOptional | methodSignature name params result isOptional =>
    obtain ⟨hparams, hresult⟩ := restores_signature hchildren
    exact ⟨_, rfl, (Fills.recordWithDefaults (.member (restores_string name) (fun _ => rfl)
      (.member hparams (fun _ => rfl) (.member hresult (fun _ => rfl)
        (.member (restores_bool isOptional) (fun _ => rfl) .nil)))) rfl).bind rfl⟩
  | callSignature params result =>
    obtain ⟨hparams, hresult⟩ := restores_signature hchildren
    exact ⟨_, rfl, (Fills.recordWithDefaults (.member hparams (fun _ => rfl)
      (.member hresult (fun _ => rfl) .nil)) rfl).bind rfl⟩
  | parameter name type isOptional =>
    have htype := TypeId.restores (hchildren type List.mem_cons_self)
    exact ⟨_, rfl, (Fills.recordWithDefaults (.member (restores_string name) (fun _ => rfl)
      (.member htype (fun _ => rfl)
        (.member (restores_bool isOptional) (fun _ => rfl) .nil))) rfl).bind rfl⟩
  | enumMember name value =>
    exact ⟨_, rfl, (Fills.recordWithDefaults (.member (restores_string name) (fun _ => rfl)
      (.member (Literal.restores_decode hliteral) (fun _ => rfl) .nil)) rfl).bind rfl⟩
  | classType name members =>
    exact ⟨_, rfl, (Fills.recordWithDefaults (.member (restores_string name) (fun _ => rfl)
      (.member (restores_ids hchildren) (fun _ => rfl) .nil)) rfl).bind rfl⟩

/-! ## Names of fields -/

/-- No field has the name that the kind or the name of the type is stored under. -/
theorem fields_names {kind : TypeKind} {field : String × Json} (h : field ∈ kind.fields) :
    field.1 ≠ "kind" ∧ field.1 ≠ "typeName" := by
  have hall : kind.fields.all (fun m => m.1 != "kind" && m.1 != "typeName") = true := by
    cases kind with
    | tupleMember _ _ name? | function name? _ _ => cases name? <;> rfl
    | _ => rfl
  have hfield := List.all_eq_true.mp hall field h
  rwa [Bool.and_eq_true, bne_iff_ne, bne_iff_ne] at hfield

/-! ## Depth -/

theorem depth_idsToJson (ids : List TypeId) : (idsToJson ids).depth ≤ 1 :=
  Json.depth_array_le_succ fun j hj => by
    obtain ⟨t, -, rfl⟩ := List.mem_map.mp hj
    exact le_rfl

theorem depth_fields (kind : TypeKind) : ∀ field ∈ kind.fields, field.2.depth ≤ 2 := by
  have hids ids := (depth_idsToJson ids).trans one_le_two
  cases kind with
  | tupleMember _ _ name? | function name? _ _ =>
    cases name? <;> simp [fields, optionalField, hids, TypeId.toJson]
  | _ => simp [fields, hids, TypeId.toJson, Literal.depth_toJson_le]

/-! ## A kind from the members of a flat object -/

/-- Members after the one that names the kind are held back, and change nothing. -/
theorem decodeTag_of_ne {members : List (String × Json)} (h : ∀ m ∈ members, m.1 ≠ "kind")
    (held : Bool) (form : Form) :
    decodeTag held (some form) (RawJson.membersOfJson members) = .ok form := by
  induction members with
  | nil => rfl
  | cons m rest ih =>
    rw [RawJson.membersOfJson, decodeTag, if_neg (h m List.mem_cons_self), hold,
      RawJson.fault?_ofJson]
    exact ih fun n hn => h n (List.mem_cons_of_mem _ hn)

theorem decodeMembers_storedFields {kind : TypeKind} (h : kind.isStorable = true) (held : Bool) :
    decodeMembers held (RawJson.membersOfJson kind.storedFields) = .ok kind := by
  obtain ⟨form, hform, restores⟩ := exists_form h
  have htag : decodeTag held none (RawJson.membersOfJson kind.storedFields) = .ok form := by
    rw [storedFields, RawJson.membersOfJson, decodeTag, if_pos rfl, RawJson.ofJson]
    rw [identifier_string hform]
    exact decodeTag_of_ne (fun m hm => (fields_names hm).1) held form
  have hfilter : (RawJson.membersOfJson kind.storedFields).filter (fun m => m.1 != "kind") =
      RawJson.membersOfJson kind.fields := by
    rw [storedFields, RawJson.membersOfJson, List.filter_cons_of_neg (by simp),
      filter_membersOfJson fun m hm => (fields_names hm).1]
  rw [decodeMembers, htag, hfilter]
  change wholly (form.decode ⟨.ofJson (.object kind.fields), true⟩) = _
  rw [restores.decodes true]
  rfl

end TypeKind

/-! ## Nodes -/

namespace TypeNode

variable {node : TypeNode}

/-- The name of the type is found behind the fields of the kind. -/
theorem fillMembers_typeName (typeName : Option String) (held : Bool)
    {members : List (String × Json)} (h : ∀ m ∈ members, m.1 ≠ "typeName") :
    fillMembers ["typeName"] (fun _ _ j => optional Decode.string j) held [] none
      (RawJson.membersOfJson (members ++ TypeKind.optionalField "typeName" typeName)) =
        .ok typeName := by
  induction members with
  | nil => cases typeName <;> rfl
  | cons m rest ih =>
    have hne : ¬["typeName"].contains m.1 = true := by
      simpa using h m List.mem_cons_self
    rw [List.cons_append, RawJson.membersOfJson, fillMembers, if_neg hne]
    exact ih fun n hn => h n (List.mem_cons_of_mem _ hn)

theorem storedFields_names {kind : TypeKind} {m : String × Json} (h : m ∈ kind.storedFields) :
    m.1 ≠ "typeName" := by
  rcases List.mem_cons.mp h with rfl | h
  · exact (by decide : "kind" ≠ "typeName")
  · exact (TypeKind.fields_names h).2

/-- A node comes back. -/
theorem restores (h : node.kind.isStorable = true) : Restores decode node.toJson node := by
  refine ⟨?_, fun held => ?_⟩
  · obtain ⟨form, -, hfields⟩ := TypeKind.exists_form h
    have hfields : Json.membersPrintable node.kind.storedFields = true := hfields.printable
    have hname : Json.membersPrintable (TypeKind.optionalField "typeName" node.typeName) = true := by
      cases node.typeName <;> rfl
    rw [toJson, Json.isPrintable, membersPrintable_append, hfields, hname]
    rfl
  · have hfilter : (RawJson.membersOfJson (node.kind.storedFields ++
        TypeKind.optionalField "typeName" node.typeName)).filter (fun m => m.1 != "typeName") =
        RawJson.membersOfJson node.kind.storedFields := by
      rw [membersOfJson_append, List.filter_append,
        filter_membersOfJson fun m hm => storedFields_names hm, List.append_right_eq_self]
      cases node.typeName <;> rfl
    change (fillMembers ["typeName"] _ held [] none (RawJson.membersOfJson _) >>= _) = _
    rw [fillMembers_typeName node.typeName held fun m hm => storedFields_names hm]
    change (wholly (TypeKind.decodeMembers true (List.filter _ (RawJson.membersOfJson _))) >>= _) = _
    rw [hfilter, TypeKind.decodeMembers_storedFields h]
    rfl

theorem depth_toJson_le (node : TypeNode) : node.toJson.depth ≤ 3 := by
  refine Json.depth_object_le_succ fun m hm => ?_
  rcases List.mem_append.mp hm with hm | hm
  · rcases List.mem_cons.mp hm with rfl | hm
    · exact Nat.zero_le 2
    · exact node.kind.depth_fields m hm
  · cases htypeName : node.typeName with
    | none =>
      rw [htypeName] at hm
      cases hm
    | some name =>
      rw [htypeName] at hm
      obtain rfl := List.mem_singleton.mp hm
      exact Nat.zero_le 2

end TypeNode

/-! ## Graphs -/

namespace TypeGraph

variable {g : TypeGraph}

theorem restores (h : g.Storable) : Restores decode g.toJson g := by
  have hnodes := restores_list_map fun node hnode => TypeNode.restores (h.nodes node hnode)
  have hroots := restores_table h.names fun root hroot => TypeId.restores (h.roots root hroot)
  refine (Fills.recordWithDefaults (.member hnodes (fun _ => rfl)
    (.member hroots (fun _ => rfl) .nil)) rfl).bind ?_
  rfl

theorem depth_toJson_le (g : TypeGraph) : g.toJson.depth ≤ 5 := by
  have hnodes : (Json.array (g.nodes.toList.map TypeNode.toJson)).depth ≤ 4 :=
    Json.depth_array_le_succ (List.forall_mem_map.mpr fun node _ => node.depth_toJson_le)
  have hroots : (Json.object (g.roots.map fun root => (root.1, root.2.toJson))).depth ≤ 1 :=
    Json.depth_object_le_succ (List.forall_mem_map.mpr fun root _ => Nat.le_refl 0)
  exact Json.depth_object_le_succ
    (List.forall_mem_cons.mpr ⟨hnodes, List.forall_mem_singleton.mpr (hroots.trans (by omega))⟩)

/-- **The text of a graph is read as the graph**, its nodes and its roots in their order. -/
theorem ofText_toJson_text (h : g.Storable) : ofText g.toJson.text = .ok g :=
  (restores h).text_eq (g.depth_toJson_le.trans (by decide))

/-- Events with an optional place, which is a pair; the members of an enum; and a function. -/
def events : TypeGraph where
  nodes := #[
    ⟨.objectLiteral [⟨1⟩, ⟨2⟩, ⟨3⟩], some "Event"⟩, ⟨.property "kind" ⟨9⟩ false true, none⟩,
    ⟨.property "typeName" ⟨4⟩ true false, none⟩, ⟨.indexSignature ⟨5⟩ ⟨0⟩, none⟩,
    ⟨.tuple [⟨6⟩, ⟨7⟩], none⟩, ⟨.string, none⟩, ⟨.tupleMember ⟨8⟩ false (some "x"), none⟩,
    ⟨.rest ⟨8⟩, none⟩, ⟨.number, none⟩, ⟨.enumeration [⟨10⟩, ⟨11⟩, ⟨12⟩], some "Kind"⟩,
    ⟨.enumMember "half" (.number (-0.5)), none⟩, ⟨.enumMember "large" (.bigint (-7)), none⟩,
    ⟨.enumMember "word" (.regexp ⟨"\\w+", "gi"⟩), none⟩,
    ⟨.function none [⟨14⟩] ⟨4⟩, none⟩, ⟨.parameter "event" ⟨0⟩ false, none⟩,
    ⟨.classType "Date" [], none⟩]
  roots := [("Event", ⟨0⟩), ("locate", ⟨13⟩), ("Another", ⟨0⟩)]

theorem ofText_toJson_text_events : events.Storable ∧ ofText events.toJson.text = .ok events := by
  have storable : events.Storable := ⟨by decide +kernel, by decide, by decide⟩
  exact ⟨storable, ofText_toJson_text storable⟩

end TypeGraph

end Typeforge
