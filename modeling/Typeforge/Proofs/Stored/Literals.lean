/-
# `Typeforge.Proofs.Stored.Literals` — stored literals come back

A literal is stored as its kind and its content.  Numbers that are no decimal are stored
as null and do not come back; all other literals do, a zero with its sign.
-/
import Typeforge.Graph.Literal
import Typeforge.Proofs.Documents.Carried
import Typeforge.Proofs.Stored.Decoding

namespace Typeforge

namespace Literal

open Decode

/-- Whether a literal can be stored. -/
def isStorable : Literal → Bool
  | number x => x.isFinite
  | _ => true

theorem restores_regexp (r : Regexp) :
    Restores decodeRegexp (.object [("source", .string r.source), ("flags", .string r.flags)]) r :=
  (Fills.record (.member (restores_string _) (fun _ => rfl)
    (.member (restores_string _) (fun _ => rfl) .nil)) rfl).bind rfl

/-- A literal comes back. -/
theorem restores_decode {l : Literal} (h : l.isStorable = true) : Restores decode l.toJson l := by
  -- each kind has its decoder in the table of kinds
  cases l with
  | string s => exact restores_tagged (by decide) rfl ((restores_string s).map string)
  | number x =>
    have finite : x.isFinite = true := h
    rw [toJson, contentToJson, if_pos finite]
    exact restores_tagged (by decide) rfl ((restores_float finite).map number)
  | boolean b => exact restores_tagged (by decide) rfl ((restores_bool b).map boolean)
  | bigint n =>
    refine restores_tagged (by decide) rfl ((restores_string (integerText n)).bind ?_)
    rw [integer?_integerText]
    rfl
  | symbol d => exact restores_tagged (by decide) rfl ((restores_string d).map symbol)
  | regexp r => exact restores_tagged (by decide) rfl ((restores_regexp r).map regexp)

/-- Only a regular expression has parts of its own. -/
theorem depth_toJson_le (l : Literal) : l.toJson.depth ≤ 2 := by
  refine Json.depth_object_le_succ (List.forall_mem_cons.mpr ⟨Nat.zero_le 1, ?_⟩)
  refine List.forall_mem_singleton.mpr ?_
  cases l with
  | number x =>
    change (if x.isFinite then Json.number (.real x) else .null).depth ≤ 1
    split <;> exact Nat.zero_le 1
  | regexp r => exact le_rfl
  | _ => exact Nat.zero_le 1

end Literal

end Typeforge
