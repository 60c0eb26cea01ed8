/-
# `Typeforge.Proofs.Types.Written` — the JSON text of a value of a type

What an emitter writes is decided by the unfolded type, and is given here on
trees: whether a value is left out of its whole, and its text where it is not.
As with changes, a tree is followed down to a depth, and the text is cut off
where that is not enough and where a type has no code.
-/
import Typeforge.Proofs.Types.Altered
import Typeforge.Run.Emits

namespace Typeforge

/-- Whether a codec carries a value that plain JSON has no place for. -/
def Codec.keeps : Codec → Value → Bool
  | undefined, .undefined => true
  | symbol, .symbol _ => true
  | _, _ => false

/-- The plain text of a value in a place where it may be left out. -/
def Value.plainText (v : Value) : Except Halt (Option String) :=
  if v.isOmitted then .ok none else v.jsonText.finish.map some

namespace TypeTree

section Content

variable (skips : TypeTree → Value → Bool) (f : TypeTree → Value → Except Halt String)

/-- The text of a value of a type in a place where it may be left out. -/
def placed (u : TypeTree) (v : Value) : Except Halt (Option String) :=
  if skips u v then .ok none else (f u v).map some

/-- The text of an object's member. -/
def memberText (props : List Property) (index : Option (KeyFilter × TypeTree)) (k : String)
    (v : Value) : Except Halt (Option String) :=
  match props.find? (·.name = k) with
  | some p => if p.optional && v.isUndefined then .ok none else placed skips f p.tree v
  | none =>
    match index with
    | some (filter, u) => if filter.accepts k then placed skips f u v else v.plainText
    | none => v.plainText

/-- The text of an object. -/
def objectText (props : List Property) (index : Option (KeyFilter × TypeTree)) :
    Value → Except Halt String
  | .object members =>
    (Emit.writeMembers (memberText skips f props index) members).map Emit.braced
  | v => v.jsonText.finish

/-- The text of a tuple's element. -/
def elementText (fixed : List TypeTree) (rest : Option TypeTree) (i : Nat) (v : Value) :
    Except Halt (Option String) :=
  match fixed[i]? with
  | some u => placed skips f u v
  | none =>
    match rest with
    | some u => placed skips f u v
    | none => v.plainText

/-- The text of an array whose elements are of certain types. -/
def arrayText (fixed : List TypeTree) (rest : Option TypeTree) : Value → Except Halt String
  | .array items => (Emit.writeItems (elementText skips f fixed rest) 0 items).map Emit.bracketed
  | v => v.jsonText.finish

open Classical in
/-- The text of a value as the first of some types that it is an instance of, counted from `i`. -/
noncomputable def firstText (v : Value) : Nat → List TypeTree → Except Halt String
  | _, [] => .error (.failed (.noUnionMember ""))
  | i, u :: rest =>
    if Judges u v true then
      (placed skips f u v).map fun text => Emit.bracketed [integerText i, text.getD "null"]
    else firstText v (i + 1) rest

/-- The text of a value that plain JSON does not carry, over those of its parts. -/
noncomputable def content (t : TypeTree) (v : Value) : Except Halt String :=
  match t.label with
  | none | some .promise | some .function => .error .cutOff
  | some (.atom x) =>
    if x.isNever then .error .cutOff
    else match x.codec? with
      | some codec => (codec.jsonText v).finish
      | none => v.jsonText.finish
  | some .array => arrayText skips f [] (some (t.part 0)) v
  | some (.property _ _) => f (t.part 0) v
  | some (.object props index _) =>
    objectText skips f (t.properties props) (index.map fun filter => (filter, t.part props.length)) v
  | some (.tuple slots rest) =>
    arrayText skips f ((t.positions slots).map (·.tree))
      (if rest then some (t.part slots.length) else none) v
  | some (.union members) => firstText skips f v 0 ((List.range members).map t.part)

/-- Whether a value that JSON has no place for is left out, over what is known of parts: a codec
keeps the values of its own kind, and a union keeps all. -/
def drops (t : TypeTree) (v : Value) : Bool :=
  match t.label with
  | some (.atom x) =>
    match x.codec? with
    | some codec => !codec.keeps v
    | none => true
  | some (.property _ _) => skips (t.part 0) v
  | some (.union _) => false
  | _ => true

end Content

open Classical in
/-- Whether a value is left out of its whole, the type followed down to a depth. -/
noncomputable def leavesOut : Nat → TypeTree → Value → Bool
  | 0, _, v => v.isOmitted
  | n + 1, t, v => v.isOmitted && if t.Needs .encode then drops (leavesOut n) t v else true

open Classical in
/-- The text of a value, its type followed down to a depth. -/
noncomputable def written : Nat → TypeTree → Value → Except Halt String
  | 0, _, _ => .error .cutOff
  | n + 1, t, v =>
    if t.Needs .encode then content (leavesOut n) (written n) t v else v.jsonText.finish

variable {t : TypeTree}

theorem written_of_not_needs (h : ¬ t.Needs .encode) (n : Nat) (v : Value) :
    written (n + 1) t v = v.jsonText.finish := if_neg h

theorem written_of_needs (h : t.Needs .encode) (n : Nat) (v : Value) :
    written (n + 1) t v = content (leavesOut n) (written n) t v := if_pos h

theorem leavesOut_of_not_needs (h : ¬ t.Needs .encode) (n : Nat) (v : Value) :
    leavesOut (n + 1) t v = v.isOmitted := by
  rw [leavesOut, if_neg h, Bool.and_true]

theorem leavesOut_of_needs (h : t.Needs .encode) (n : Nat) (v : Value) :
    leavesOut (n + 1) t v = (v.isOmitted && drops (leavesOut n) t v) := by
  rw [leavesOut, if_pos h]

theorem leavesOut_of_not_omitted {v : Value} (h : v.isOmitted = false) (n : Nat) (t : TypeTree) :
    leavesOut n t v = false := by
  cases n <;> rw [leavesOut, h]
  rfl

end TypeTree

/-! ## The text of a node's type -/

namespace Arena

variable {a : Arena} {skips : TypeTree → Value → Bool} {f : TypeTree → Value → Except Halt String}
  {id : NodeId} {v : Value}

open TypeTree

theorem content_atom {x : Atom} (h : (a.node id).shape = .atom x) (never : x.isNever = false) :
    content skips f (a.unfolding id) v =
      match x.codec? with
      | some codec => (codec.jsonText v).finish
      | none => v.jsonText.finish := by
  have hself : (a.node id).standsFor? = none := by simp only [Node.standsFor?, h]
  simp only [content, label_unfolding hself, labelOf, h, x.isNever_canonical,
    x.codec?_canonical, never, Bool.false_eq_true, if_false]

theorem content_array {item : NodeId} (h : (a.node id).shape = .array item) :
    content skips f (a.unfolding id) v = arrayText skips f [] (some (a.unfolding item)) v := by
  obtain ⟨hlabel, hpart⟩ := label_of_array h
  simp only [content, hlabel, hpart]

theorem content_property {name : String} {child : NodeId}
    (h : (a.node id).shape = .property name child) :
    content skips f (a.unfolding id) v = f (a.unfolding child) v := by
  obtain ⟨hlabel, hpart⟩ := label_of_property h
  simp only [content, hlabel, hpart]

theorem content_union {members : List NodeId} (h : (a.node id).shape = .union members) :
    content skips f (a.unfolding id) v = firstText skips f v 0 (members.map a.unfolding) := by
  obtain ⟨hlabel, hparts⟩ := label_of_union h
  simp only [content, hlabel, hparts]

theorem content_object {props : List NodeId} {index : Option NodeId} {className : Option String}
    (h : (a.node id).shape = .object props index className) :
    content skips f (a.unfolding id) v =
      objectText skips f ((a.properties props).map fun p => ⟨p.name, p.optional, a.unfolding p.id⟩)
        ((a.indexFilter index).map fun x => (x.2, a.unfolding x.1)) v := by
  have hself : (a.node id).standsFor? = none := by simp only [Node.standsFor?, h]
  have hparts := partsOf_unfolding hself
  simp only [Node.children, h, Shape.children] at hparts
  simp only [content, label_unfolding hself, labelOf, h, hparts.append_left.properties]
  cases hindex : a.indexFilter index with
  | none => rfl
  | some x =>
    obtain rfl := eq_some_of_indexFilter hindex
    have hpart : (a.unfolding id).part (props.map a.propertyName?).length = a.unfolding x.1 := by
      rw [List.length_map]
      exact hparts.append_singleton
    simp only [Option.map_some, hpart]

theorem content_tuple {members : List NodeId} (h : (a.node id).shape = .tuple members) :
    content skips f (a.unfolding id) v =
      arrayText skips f ((a.splitTuple members).1.map a.unfolding)
        ((a.splitTuple members).2.map a.unfolding) v := by
  have hself : (a.node id).standsFor? = none := by simp only [Node.standsFor?, h]
  have hparts := partsOf_unfolding hself
  simp only [Node.children, h, Shape.children] at hparts
  rw [← splitTuple_append (a := a) members] at hparts
  have hfixed : ((a.splitTuple members).1.zipIdx.map fun x =>
      (⟨a.slot x.1, x.2, a.unfolding x.1⟩ : TypeTree.Position)).map (·.tree) =
        (a.splitTuple members).1.map a.unfolding := by
    rw [List.map_map]
    change (a.splitTuple members).1.zipIdx.map (a.unfolding ∘ Prod.fst) = _
    rw [← List.map_map, List.zipIdx_map_fst]
  simp only [content, label_unfolding hself, labelOf, h, hparts.append_left.positions, hfixed,
    List.length_map]
  cases hrest : (a.splitTuple members).2 with
  | none => rfl
  | some last =>
    rw [hrest] at hparts
    simp only [hparts.append_singleton, Option.isSome_some, if_true, Option.map_some]

/-- A node that is no property drops values by its shape alone. -/
theorem drops_eq (hself : (a.node id).standsFor? = none) :
    drops skips (a.unfolding id) v =
      match (a.node id).shape with
      | .atom x =>
        match x.codec? with
        | some codec => !codec.keeps v
        | none => true
      | .property _ child => skips (a.unfolding child) v
      | .union _ => false
      | _ => true := by
  rw [drops, label_unfolding hself, labelOf]
  cases h : (a.node id).shape with
  | atom x => simp only [x.codec?_canonical]
  | property name child =>
    simp only [(label_of_property h).2]
  | tupleMember child | indexSignature filter child | rest child | parameter name child rest =>
    simp only [Node.standsFor?, h, reduceCtorEq] at hself
  | array item | promise child | object props index className | tuple members | union members
  | function f => rfl

end Arena

end Typeforge
