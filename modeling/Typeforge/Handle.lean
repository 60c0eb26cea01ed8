/-
# `Typeforge.Handle` — compiled functions to call

A handle is the key of a registered function together with the revivers known
when it was built: classes that are registered later do not change it.
-/
import Typeforge.Registry
import Typeforge.Run.Emits
import Typeforge.Run.Reports
import Typeforge.Run.Transforms

namespace Typeforge

structure Handle where
  key : FunctionKey
  revivers : Revivers

namespace Handle

/-- What the function of a handle runs in. -/
def program (h : Handle) (r : Registry) : Program := ⟨r.functions, h.revivers⟩

/-- Whether a value has the type; one that cannot be tested has not. -/
def isType (h : Handle) (r : Registry) (v : Value) : Bool :=
  match (h.program r).isType h.key.identity v with
  | .ok answer => answer
  | .error _ => false

/-- Where a value fails the type, paths from the given one; one that cannot be tested fails as a
whole. -/
def typeErrors (h : Handle) (r : Registry) (v : Value) (base : List PathItem) :
    List ValidationError :=
  let errors := match (h.program r).typeErrors h.key.identity v with
    | .ok errors => errors
    | .error _ => [⟨[], h.key.identity⟩]
  errors.map fun e => { e with path := base ++ e.path }

/-- Encodes or decodes a value in place. -/
def transform (h : Handle) (r : Registry) (v : Value) : Changed :=
  (h.program r).transform h.key.identity h.key.target v

/-- The document that carries a value. -/
def encode (h : Handle) (r : Registry) (v : Value) : Except Halt Json := do
  let encoded ← (h.transform r v).toExcept
  match encoded.toJson with
  | .ok j => pure j
  | .error e => throw (.failed e)

theorem encode_of_done {h : Handle} {r : Registry} {v w : Value}
    (hdone : h.transform r v = .done w) : h.encode r v = w.toJson.mapError Halt.failed := by
  rw [encode, hdone]
  change Except.bind (Except.ok w) _ = _
  rw [Except.bind]
  cases w.toJson <;> rfl

/-- The value that a document carries. -/
def decode (h : Handle) (r : Registry) (j : Json) : Except Halt Value :=
  (h.transform r (.ofJson j)).toExcept

/-- The value that JSON text carries. -/
def parse (h : Handle) (r : Registry) (text : String) : Except Halt Value :=
  match Json.parse text with
  | .ok j => h.decode r j
  | .error fault => .error (.failed (.decode "JSON text" (.notJson fault.message)))

/-- The text of the document that carries a value. -/
def stringify (h : Handle) (r : Registry) (v : Value) : Except Halt String :=
  (h.program r).stringify h.key.identity v

end Handle

/-- The five functions of a type. -/
structure TypeFunctions where
  isType : Handle
  typeErrors : Handle
  jsonEncode : Handle
  jsonDecode : Handle
  jsonStringify : Handle

namespace TypeFunctions

def identity (f : TypeFunctions) : String := f.isType.key.identity

/-- The handles of an identity for all targets. -/
def ofIdentity (identity : String) (revivers : Revivers) : TypeFunctions where
  isType := ⟨⟨identity, .isType⟩, revivers⟩
  typeErrors := ⟨⟨identity, .typeErrors⟩, revivers⟩
  jsonEncode := ⟨⟨identity, .jsonEncode⟩, revivers⟩
  jsonDecode := ⟨⟨identity, .jsonDecode⟩, revivers⟩
  jsonStringify := ⟨⟨identity, .jsonStringify⟩, revivers⟩

def get (f : TypeFunctions) : Target → Handle
  | .isType => f.isType
  | .typeErrors => f.typeErrors
  | .jsonEncode => f.jsonEncode
  | .jsonDecode => f.jsonDecode
  | .jsonStringify => f.jsonStringify

end TypeFunctions

end Typeforge
