/-
# `Typeforge.Proofs.Types.Altered` — what becomes of a value on its way through JSON

Encoding and decoding change a value in place, part by part, and both follow
the unfolded type: what is done to a value is given here on trees, without
code, calls or bounds on calls.  A tree may be infinite, so that the changes
are followed down to a depth only; where that is not enough, and where a type
has no code, they are cut off.

A union takes the first member that the value is an instance of.  The name by
which its error calls the union is no part of the type and is left empty.
-/
import Typeforge.Proofs.Types.Needs
import Typeforge.Run.Transforms

namespace Typeforge

/-! ## Names of unions -/

/-- An error, without the name by which it calls a union. -/
def RunError.unnamed : RunError → RunError
  | .noUnionMember _ => .noUnionMember ""
  | e => e

def Halt.unnamed : Halt → Halt
  | .failed e => .failed e.unnamed
  | .cutOff => .cutOff

/-- Whether a run failed because a value is no member of a union. -/
def Halt.isUnmatched : Halt → Bool
  | .failed (.noUnionMember _) => true
  | _ => false

namespace Changed

def unnamed (c : Changed) : Changed := ⟨c.value, c.stop.map Halt.unnamed⟩

/-! ## Changes of a whole from changes of its parts -/

/-- Makes the changes of a list, one after the other. -/
def inTurn : List (Value → Changed) → Value → Changed
  | [], v => .done v
  | f :: fs, v => (f v).andThen (inTurn fs)

end Changed

/-- Changes a part, unless it is optional and undefined. -/
def Value.changePresent (access : Access) (optional : Bool) (f : Value → Changed) (v : Value) :
    Changed :=
  v.changePart access fun w => if optional && w.isUndefined then .done w else f w

namespace Way

/-- What a codec makes of a value. -/
def carry : Way → Codec → Value → Changed
  | encode, codec, v => .done (codec.encode v)
  | decode, codec, v =>
    match codec.decode v with
    | .ok w => .done w
    | .error e => .failed v e

/-- What is done first in a fixed position of a tuple: on the way back, an element that was left
out is restored. -/
def restore : Way → Slot → Nat → List (Value → Changed)
  | decode, ⟨_, true⟩, i =>
    [fun v => v.changePart (.element i) fun w => .done (if w.isNull then .undefined else w)]
  | _, _, _ => []

/-- What is done last with an object: on the way back, a class revives it. -/
def revive (revivers : Revivers) : Way → Option String → List (Value → Changed)
  | decode, some name =>
    [fun v =>
      match Members.get? name revivers with
      | some reviver => .done (reviver v)
      | none => .failed .undefined (.missingReviver name)]
  | _, _ => []

end Way

namespace TypeTree

variable (w : Way) (revivers : Revivers) (f : TypeTree → Value → Changed) (t : TypeTree)

open Classical in
/-- Encodes a value as the first of some types that it is an instance of, counted from `i`. -/
noncomputable def tagFirst (v : Value) : Nat → List TypeTree → Changed
  | _, [] => .failed v (.noUnionMember "")
  | i, u :: rest =>
    if Judges u v true then (f u v).andThen fun w => .done (.array [.ofNat i, w])
    else tagFirst v (i + 1) rest

/-- Decodes what was encoded as one of some types. -/
def untagged (members : List TypeTree) (v : Value) : Changed :=
  match v with
  | .array [.number n, inner] =>
    match tagNumber? n with
    | none => .failed v (.decode "union tag" (.kind v.kindName))
    | some i =>
      match members[i]? with
      | none => .failed (.array [.number n]) (.badUnionTag i members.length)
      | some u =>
        match f u inner with
        | ⟨w, none⟩ => .done w
        | ⟨_, some h⟩ => ⟨.array [.number n], some h⟩
  | v => .failed v (.decode "union tag" (.kind v.kindName))

/-- What becomes of an instance of a union. -/
noncomputable def alterUnion (members : List TypeTree) (v : Value) : Changed :=
  match w with
  | .encode => tagFirst f v 0 members
  | .decode => untagged f members v

/-- The changes of the members that an index signature covers. -/
def indexSteps (props : List (Option String)) : Option KeyFilter → List (Value → Changed)
  | some filter =>
    [Value.changeCovered (filter.covers (propertyNames props)) (f (t.part props.length))]
  | none => []

/-- The changes of an object. -/
def objectSteps (props : List (Option String)) (index : Option KeyFilter)
    (className : Option String) : List (Value → Changed) :=
  (t.properties props).map (fun p => f p.tree) ++ t.indexSteps f props index ++
    w.revive revivers className

/-- The changes of a tuple's fixed positions. -/
def slotSteps (slots : List Slot) : List (Value → Changed) :=
  (t.positions slots).flatMap fun p =>
    w.restore p.slot p.index ++ [Value.changePresent (.element p.index) p.slot.optional (f p.tree)]

/-- The changes of a tuple. -/
def tupleSteps (slots : List Slot) (rest : Bool) : List (Value → Changed) :=
  t.slotSteps w f slots ++
    if rest then [Value.changeFrom slots.length (f (t.part slots.length))] else []

/-- The changes of a value that is to be encoded or decoded, over those of its parts. -/
noncomputable def steps : List (Value → Changed) :=
  match t.label with
  | none | some .promise | some .function => [fun v => ⟨v, some .cutOff⟩]
  | some (.atom x) =>
    if x.isNever then [fun v => ⟨v, some .cutOff⟩] else x.codec?.toList.map w.carry
  | some .array => [Value.changeFrom 0 (f (t.part 0))]
  | some (.property name optional) =>
    [Value.changePresent (.member name) optional (f (t.part 0))]
  | some (.object props index className) => t.objectSteps w revivers f props index className
  | some (.tuple slots rest) => t.tupleSteps w f slots rest
  | some (.union members) => [alterUnion w f ((List.range members).map t.part)]

open Classical in
/-- What encoding or decoding makes of a value, down to a depth. -/
noncomputable def alter : Nat → TypeTree → Value → Changed
  | 0, _, v => ⟨v, some .cutOff⟩
  | n + 1, t, v => if t.Needs w then Changed.inTurn (t.steps w revivers (alter n)) v else .done v

variable {w revivers f t}

theorem alter_of_not_needs (h : ¬ t.Needs w) (n : Nat) (v : Value) :
    alter w revivers (n + 1) t v = .done v := if_neg h

theorem alter_of_needs (h : t.Needs w) (n : Nat) (v : Value) :
    alter w revivers (n + 1) t v = Changed.inTurn (t.steps w revivers (alter w revivers n)) v :=
  if_pos h

end TypeTree

/-! ## The changes of a node's type -/

namespace Arena

variable {a : Arena} {w : Way} {revivers : Revivers} {f : TypeTree → Value → Changed} {id : NodeId}

theorem steps_atom {x : Atom} (h : (a.node id).shape = .atom x) (never : x.isNever = false) :
    (a.unfolding id).steps w revivers f = x.codec?.toList.map w.carry := by
  have hself : (a.node id).standsFor? = none := by simp only [Node.standsFor?, h]
  simp only [TypeTree.steps, label_unfolding hself, labelOf, h, x.isNever_canonical,
    x.codec?_canonical, never, Bool.false_eq_true, if_false]

theorem steps_array {item : NodeId} (h : (a.node id).shape = .array item) :
    (a.unfolding id).steps w revivers f = [Value.changeFrom 0 (f (a.unfolding item))] := by
  obtain ⟨hlabel, hpart⟩ := label_of_array h
  simp only [TypeTree.steps, hlabel, hpart]

theorem steps_property {name : String} {child : NodeId}
    (h : (a.node id).shape = .property name child) :
    (a.unfolding id).steps w revivers f =
      [Value.changePresent (.member name) (a.node id).optional (f (a.unfolding child))] := by
  obtain ⟨hlabel, hpart⟩ := label_of_property h
  simp only [TypeTree.steps, hlabel, hpart]

theorem steps_union {members : List NodeId} (h : (a.node id).shape = .union members) :
    (a.unfolding id).steps w revivers f =
      [TypeTree.alterUnion w f (members.map a.unfolding)] := by
  obtain ⟨hlabel, hparts⟩ := label_of_union h
  simp only [TypeTree.steps, hlabel, hparts]

/-- The changes of an object's members. -/
def memberSteps (a : Arena) (f : TypeTree → Value → Changed) (props : List NodeId)
    (index : Option NodeId) : List (Value → Changed) :=
  (a.properties props).map (fun p => f (a.unfolding p.id)) ++
    match a.indexFilter index with
    | some (id, filter) => [Value.changeCovered
        (filter.covers (Compile.declaredNames (a.properties props))) (f (a.unfolding id))]
    | none => []

theorem steps_object {props : List NodeId} {index : Option NodeId} {className : Option String}
    (h : (a.node id).shape = .object props index className) :
    (a.unfolding id).steps w revivers f =
      a.memberSteps f props index ++ w.revive revivers className := by
  have hself : (a.node id).standsFor? = none := by simp only [Node.standsFor?, h]
  have hparts := partsOf_unfolding hself
  simp only [Node.children, h, Shape.children] at hparts
  simp only [TypeTree.steps, label_unfolding hself, labelOf, h, TypeTree.objectSteps, memberSteps,
    hparts.append_left.properties, List.map_map]
  cases hindex : a.indexFilter index with
  | none => rfl
  | some x =>
    obtain rfl := eq_some_of_indexFilter hindex
    have hpart : (a.unfolding id).part (props.map a.propertyName?).length = a.unfolding x.1 := by
      rw [List.length_map]
      exact hparts.append_singleton
    simp only [TypeTree.indexSteps, Option.map_some, hpart, propertyNames_map]
    rfl

/-- The changes of a tuple's elements. -/
def elementSteps (a : Arena) (w : Way) (f : TypeTree → Value → Changed) (members : List NodeId) :
    List (Value → Changed) :=
  ((a.splitTuple members).1.zipIdx.flatMap fun x =>
      w.restore (a.slot x.1) x.2 ++
        [Value.changePresent (.element x.2) (a.node x.1).optional (f (a.unfolding x.1))]) ++
    match (a.splitTuple members).2 with
    | some id => [Value.changeFrom (a.splitTuple members).1.length (f (a.unfolding id))]
    | none => []

theorem steps_tuple {members : List NodeId} (h : (a.node id).shape = .tuple members) :
    (a.unfolding id).steps w revivers f = a.elementSteps w f members := by
  have hself : (a.node id).standsFor? = none := by simp only [Node.standsFor?, h]
  have hparts := partsOf_unfolding hself
  simp only [Node.children, h, Shape.children] at hparts
  rw [← splitTuple_append (a := a) members] at hparts
  simp only [TypeTree.steps, label_unfolding hself, labelOf, h, TypeTree.tupleSteps,
    TypeTree.slotSteps, hparts.append_left.positions, List.flatMap_map, elementSteps,
    List.length_map]
  cases hrest : (a.splitTuple members).2 with
  | none => rfl
  | some last =>
    rw [hrest] at hparts
    simp only [hparts.append_singleton, Option.isSome_some, if_true]
    rfl

end Arena

end Typeforge
