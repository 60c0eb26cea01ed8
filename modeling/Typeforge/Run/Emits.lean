/-
# `Typeforge.Run.Emits` — running emitters

An emitter writes the text of a value, or leaves the value out: an object then
has no member for it, and elsewhere `null` stands in its place.
-/
import Typeforge.Run.Checks

namespace Typeforge

/-- What an emitter rests on. -/
structure Emit.Context where
  check : Check → Value → Option Bool
  /-- Whether the emitter of an identity leaves a value out. -/
  omits : String → Value → Option Bool
  /-- Runs the emitter of an identity. -/
  call : String → Value → Except Halt String

/-- Text written to its end, or what stopped it. -/
def Written.finish (w : Written) : Except Halt String :=
  match w.toExcept with
  | .ok text => .ok text
  | .error e => .error (.failed e)

/-- The answer of a run, when it was not cut off. -/
def answered {α : Type} : Option α → Except Halt α
  | some a => .ok a
  | none => .error .cutOff

namespace Emit

/-- Whether an emitter leaves a value out. Of the values JSON has no place for, a codec keeps those
of its own kind, and a union all. -/
def omits (call : String → Value → Option Bool) (emit : Emit) (v : Value) : Option Bool :=
  if v.isOmitted then
    match emit, v with
    | encoded .undefined, .undefined => some false
    | encoded .symbol, .symbol _ => some false
    | union _ _, _ => some false
    | .call identity, v => call identity v
    | _, _ => some true
  else some false

/-- The text of a value in a place where an emitter may leave it out. -/
def placed (x : Context) (emit : Emit) (v : Value) (write : Except Halt String) :
    Except Halt (Option String) := do
  if ← answered (emit.omits x.omits v) then pure none
  else do
    let text ← write
    pure (some text)

/-- The texts of an object's members, those left out excepted. -/
def writeMembers (write : String → Value → Except Halt (Option String)) :
    List (String × Value) → Except Halt (List String)
  | [] => .ok []
  | (k, v) :: rest => do
    let text ← write k v
    let others ← writeMembers write rest
    match text with
    | some text => pure ((quoted k ++ ":" ++ text) :: others)
    | none => pure others

/-- The texts of elements, counted from `i`. -/
def writeItems (write : Nat → Value → Except Halt (Option String)) (i : Nat) :
    List Value → Except Halt (List String)
  | [] => .ok []
  | v :: rest => do
    let text ← write i v
    let others ← writeItems write (i + 1) rest
    pure (text.getD "null" :: others)

/-- The text of an object with these members. -/
def braced (members : List String) : String := "\x7b" ++ ",".intercalate members ++ "\x7d"

/-- The text of an array with these elements. -/
def bracketed (items : List String) : String := "[" ++ ",".intercalate items ++ "]"

/-- Plain JSON, or nothing for a value JSON has no place for. -/
def plain (x : Context) (v : Value) : Except Halt (Option String) :=
  placed x json v v.jsonText.finish

mutual

/-- The text an emitter writes for a value. -/
def run (x : Context) : Emit → Value → Except Halt String
  | json, v => v.jsonText.finish
  | encoded codec, v => (codec.jsonText v).finish
  | object members index, v =>
    match v with
    | .object entries => do
      let texts ← writeMembers
        (fun k w =>
          match declared x k w members with
          | some text => text
          | none => (indexed x k w index).getD (plain x w))
        entries
      pure (braced texts)
    | v => v.jsonText.finish
  | array item, v =>
    match v with
    | .array items => do
      let texts ← writeItems (fun _ w => placed x item w (item.run x w)) 0 items
      pure (bracketed texts)
    | v => v.jsonText.finish
  | tuple elements rest, v =>
    match v with
    | .array items => do
      let texts ← writeItems
        (fun i w =>
          match fixed x i w elements with
          | some text => text
          | none => (others x w rest).getD (plain x w))
        0 items
      pure (bracketed texts)
    | v => v.jsonText.finish
  | union name arms, v => tagged x name 0 v arms
  | call identity, v => x.call identity v

/-- The text of a declared member; none when the key is not declared. -/
def declared (x : Context) (k : String) (v : Value) :
    List (MemberEmit Emit) → Option (Except Halt (Option String))
  | [] => none
  | ⟨name, optional, emit⟩ :: rest =>
    if name = k then
      some (if optional && v.isUndefined then .ok none else placed x emit v (emit.run x v))
    else declared x k v rest

/-- The text of a member that the index covers. -/
def indexed (x : Context) (k : String) (v : Value) :
    Option (KeyFilter × Emit) → Option (Except Halt (Option String))
  | none => none
  | some (filter, emit) =>
    if filter.accepts k then some (placed x emit v (emit.run x v)) else none

/-- The text of an element in a fixed position; none behind the last one. -/
def fixed (x : Context) (i : Nat) (v : Value) :
    List Emit → Option (Except Halt (Option String))
  | [] => none
  | emit :: rest =>
    match i with
    | 0 => some (placed x emit v (emit.run x v))
    | i + 1 => fixed x i v rest

/-- The text of an element behind the fixed positions. -/
def others (x : Context) (v : Value) : Option Emit → Option (Except Halt (Option String))
  | none => none
  | some emit => some (placed x emit v (emit.run x v))

/-- The text of the first arm whose test holds, after its number. -/
def tagged (x : Context) (name : String) (i : Nat) (v : Value) :
    List (Check × Emit) → Except Halt String
  | [] => .error (.failed (.noUnionMember name))
  | (check, emit) :: rest =>
    match x.check check v with
    | none => .error .cutOff
    | some false => tagged x name (i + 1) v rest
    | some true => do
      let text ← placed x emit v (emit.run x v)
      pure (bracketed [integerText i, text.getD "null"])

end

end Emit

namespace Program

/-- Whether the emitter of an identity leaves a value out. One that is not there leaves out
whatever JSON has no place for. -/
def omitsCall (p : Program) : Nat → String → Value → Option Bool
  | 0, _, _ => none
  | steps + 1, identity, v =>
    match p.body? ⟨identity, .jsonStringify⟩ with
    | some (.jsonStringify emit) => emit.omits (omitsCall p steps) v
    | _ => some true

/-- Whether the emitter of an identity leaves a value out. -/
def omits (p : Program) (identity : String) (v : Value) : Option Bool :=
  p.omitsCall (p.steps v) identity v

/-- Runs the emitter of an identity, calls nested at most as deep as the bound. -/
def emitCall (p : Program) : Nat → String → Value → Except Halt String
  | 0, _, _ => .error .cutOff
  | steps + 1, identity, v =>
    match p.body? ⟨identity, .jsonStringify⟩ with
    | some (.jsonStringify emit) => emit.run ⟨p.check, p.omits, emitCall p steps⟩ v
    | _ => .error (.missing ⟨identity, .jsonStringify⟩)

/-- The JSON text of a value; `null` when the emitter leaves it out. -/
def stringify (p : Program) (identity : String) (v : Value) : Except Halt String :=
  match p.body? ⟨identity, .jsonStringify⟩ with
  | some (.jsonStringify emit) => do
    if ← answered (emit.omits p.omits v) then pure "null"
    else emit.run ⟨p.check, p.omits, p.emitCall (p.steps v)⟩ v
  | _ => .error (.missing ⟨identity, .jsonStringify⟩)

end Program

end Typeforge
