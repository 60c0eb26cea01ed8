/-
# `Typeforge.Run.Transforms` — running encoders and decoders

A run changes a value in place.  When it stops, the value stays as the changes
so far have left it.
-/
import Typeforge.Run.Checks

namespace Typeforge

/-! ## Values as changes leave them -/

/-- A value as it was left, and what stopped the changes, if something did. -/
structure Changed where
  value : Value
  stop : Option Halt

namespace Changed

/-- A value changed to the end. -/
def done (v : Value) : Changed := ⟨v, none⟩

/-- A value left where changing it failed. -/
def failed (v : Value) (e : RunError) : Changed := ⟨v, some (.failed e)⟩

/-- Goes on with a value that was changed to the end. -/
def andThen (c : Changed) (f : Value → Changed) : Changed :=
  match c.stop with
  | none => f c.value
  | some _ => c

/-- The changed value, or what stopped the changes. -/
def toExcept (c : Changed) : Except Halt Value :=
  match c.stop with
  | none => .ok c.value
  | some h => .error h

end Changed

namespace Value

/-- Changes items one after the other, until one stops. -/
def changeItems (f : Value → Changed) : List Value → List Value × Option Halt
  | [] => ([], none)
  | v :: rest =>
    match f v with
    | ⟨w, some h⟩ => (w :: rest, some h)
    | ⟨w, none⟩ =>
      let (items, stop) := changeItems f rest
      (w :: items, stop)

/-- Changes the members with keys of a kind, one after the other, until one stops. -/
def changeMembers (chosen : String → Bool) (f : Value → Changed) :
    List (String × Value) → List (String × Value) × Option Halt
  | [] => ([], none)
  | (k, v) :: rest =>
    if chosen k then
      match f v with
      | ⟨w, some h⟩ => ((k, w) :: rest, some h)
      | ⟨w, none⟩ =>
        let (members, stop) := changeMembers chosen f rest
        ((k, w) :: members, stop)
    else
      let (members, stop) := changeMembers chosen f rest
      ((k, v) :: members, stop)

/-- Changes the elements from an index on. -/
def changeFrom (start : Nat) (f : Value → Changed) : Value → Changed
  | array items =>
    let (changed, stop) := changeItems f (items.drop start)
    ⟨array (items.take start ++ changed), stop⟩
  | v => .done v

/-- Changes the members with keys of a kind. -/
def changeCovered (covers : String → Bool) (f : Value → Changed) : Value → Changed
  | object members =>
    let (changed, stop) := changeMembers covers f members
    ⟨object changed, stop⟩
  | v => .done v

/-- Changes one part, if it is there. -/
def changePart (access : Access) (f : Value → Changed) (v : Value) : Changed :=
  match access, v with
  | .member name, object members =>
    match Members.get? name members with
    | some w =>
      let ⟨changed, stop⟩ := f w
      ⟨object (Members.update name (fun _ => changed) members), stop⟩
    | none => .done v
  | .element i, array items =>
    match items[i]? with
    | some w =>
      let ⟨changed, stop⟩ := f w
      ⟨array (items.set i changed), stop⟩
    | none => .done v
  | _, _ => .done v

end Value

/-- The largest number of an arm that can be told from larger ones. -/
def largestTag : Nat := Nat.pow 2 64 - 1

/-- The number of an arm that a number stands for: a whole one, none below zero. -/
def tagNumber? (x : Float) : Option Nat :=
  match wholeNumber? x with
  | some (.ofNat n) => some (min n largestTag)
  | _ => none

/-! ## Running -/

/-- What a transform rests on. -/
structure Transform.Context where
  check : Check → Value → Option Bool
  revivers : Revivers
  /-- Runs the transform of an identity. -/
  call : String → Value → Changed

namespace Transform

mutual

/-- Runs one change of a value. -/
def run (x : Context) : Transform → Value → Changed
  | encode codec, v => .done (codec.encode v)
  | decode codec, v =>
    match codec.decode v with
    | .ok w => .done w
    | .error e => .failed v e
  | part access optional body, v =>
    v.changePart access fun w => if optional && w.isUndefined then .done w else runAll x body w
  | absent access, v => v.changePart access fun w => .done (if w.isNull then .undefined else w)
  | each start body, v => v.changeFrom start (runAll x body)
  | eachKey filter skip body, v => v.changeCovered (filter.covers skip) (runAll x body)
  | tag union arms, v => runTagged x union 0 arms v
  | untag arms, v =>
    match v with
    | .array [.number n, inner] =>
      match tagNumber? n with
      | none => .failed v (.decode "union tag" (.kind v.kindName))
      | some i =>
        match runArm x i arms inner with
        | none => .failed (.array [.number n]) (.badUnionTag i arms.length)
        | some ⟨w, none⟩ => .done w
        | some ⟨_, some h⟩ => ⟨.array [.number n], some h⟩
    | v => .failed v (.decode "union tag" (.kind v.kindName))
  | revive className, v =>
    match Members.get? className x.revivers with
    | some reviver => .done (reviver v)
    | none => .failed .undefined (.missingReviver className)
  | call identity, v => x.call identity v

/-- Runs changes one after the other. -/
def runAll (x : Context) : List Transform → Value → Changed
  | [], v => .done v
  | t :: rest, v => (t.run x v).andThen (runAll x rest)

/-- Runs the first arm whose test holds, and pairs the result with the arm's number. -/
def runTagged (x : Context) (union : String) (i : Nat) :
    List (Check × List Transform) → Value → Changed
  | [], v => .failed v (.noUnionMember union)
  | (check, body) :: rest, v =>
    match x.check check v with
    | none => ⟨v, some .cutOff⟩
    | some true => (runAll x body v).andThen fun w => .done (.array [.ofNat i, w])
    | some false => runTagged x union (i + 1) rest v

/-- Runs the arm with a number, if there is one. -/
def runArm (x : Context) : Nat → List (List Transform) → Value → Option Changed
  | _, [], _ => none
  | 0, body :: _, v => some (runAll x body v)
  | i + 1, _ :: rest, v => runArm x i rest v

end

end Transform

namespace Program

/-- Runs the transform of an identity, calls nested at most as deep as the bound. -/
def transformCall (p : Program) (target : Target) : Nat → String → Value → Changed
  | 0, _, v => ⟨v, some .cutOff⟩
  | steps + 1, identity, v =>
    match p.body? ⟨identity, target⟩ with
    | some (.jsonEncode body) | some (.jsonDecode body) =>
      Transform.runAll ⟨p.check, p.revivers, transformCall p target steps⟩ body v
    | _ => ⟨v, some (.missing ⟨identity, target⟩)⟩

/-- Encodes or decodes a value in place. -/
def transform (p : Program) (identity : String) (target : Target) (v : Value) : Changed :=
  p.transformCall target (p.steps v) identity v

end Program

end Typeforge
