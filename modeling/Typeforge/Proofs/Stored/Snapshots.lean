/-
# `Typeforge.Proofs.Stored.Snapshots` — a stored snapshot comes back

The text of a snapshot is read as the snapshot: all its functions in their order, the code
of each, and what the names stand for.  Two conditions are the text's and the reader's.
A number that is no decimal has no text, and the reader goes down to `Json.depthLimit`;
compiled code nests several arrays and objects for each statement, so that a snapshot may
well be deeper than that.  `Snapshot.ofText_text` asks for these two, and that no name is
entered twice.
-/
import Typeforge.Snapshot
import Typeforge.Proofs.Stored.Code

namespace Typeforge

namespace Snapshot

open Decode

/-- A snapshot whose code can be stored and whose names are different ones. -/
structure Storable (s : Snapshot) : Prop where
  code : ∀ f ∈ s.functions, f.body.isStorable = true
  names : (s.entries.map Prod.fst).Nodup

variable {s : Snapshot}

theorem restores (h : s.Storable) (shallow : s.toJson.depth ≤ Json.depthLimit) :
    Restores decode s.toJson s := by
  have hdepths := shallow
  rw [toJson] at hdepths
  simp only [Json.depth_object_cons_le] at hdepths
  have hfunctions : Restores (Decode.list Function.decode)
      (.array (s.functions.map Function.toJson)) s.functions :=
    restores_list_map fun f hf =>
      Function.restores (h.code f hf) (Json.depth_le_of_mem_array (List.mem_map_of_mem hf) hdepths.1.le)
  exact (Fills.recordWithDefaults (.member hfunctions (fun _ => rfl)
    (.member (restores_table h.names fun _ _ => restores_string _) (fun _ => rfl) .nil)) rfl).bind rfl

/-- **The text of a snapshot is read as the snapshot**, as long as the reader goes that deep. -/
theorem ofText_text (h : s.Storable) (shallow : s.toJson.depth ≤ Json.depthLimit) :
    ofText s.text = .ok s :=
  (restores h shallow).text_eq shallow

/-- Linked nodes with sizes: a test, reports, both ways through JSON, and JSON text. -/
def linked : Snapshot where
  functions := [
    .ofBody "Node" (.isType (.all [.is .object,
      .part (.member "size") false (.any [.finiteNumber, .equals (.number (-0.5))]),
      .part (.member "next") true (.call "Node")])),
    .ofBody "Node" (.typeErrors [.expect (.is .object) [] "object" [
      .eachKey .numeric ["size", "next"] [.expect .always [.loop 0] "anything" []],
      .call "Node" [.key "next"]]]),
    .ofBody "Node" (.jsonEncode [.part (.member "next") true
      [.tag "Node | Date" [(.is .date, [.encode .date]), (.is .object, [.call "Node"])]]]),
    .ofBody "Node" (.jsonDecode [.part (.member "next") true
      [.untag [[.decode .date], [.call "Node"]]], .revive "Node"]),
    .ofBody "Node" (.jsonStringify (.object [⟨"size", false, .json⟩, ⟨"next", true,
      .union "Node | Date" [(.is .date, .encoded .date), (.is .object, .call "Node")]⟩] none))]
  entries := [("Node", "Node"), ("Root", "Node")]

theorem ofText_text_linked : linked.Storable ∧ linked.toJson.depth ≤ Json.depthLimit ∧
    ofText linked.text = .ok linked := by
  have storable : linked.Storable :=
    ⟨List.forall_mem_cons.mpr ⟨by decide +kernel, by decide⟩, by decide⟩
  have shallow : linked.toJson.depth ≤ Json.depthLimit := by decide +kernel
  exact ⟨storable, shallow, ofText_text storable shallow⟩

end Snapshot

end Typeforge
