/-
# `Typeforge.Proofs.Documents.Projections` — the document and the text of a value agree

A value has a plain document and a plain text, and each is made without the other.  What
can stop them is a big integer, and as both go through a value in the order of its parts,
both are stopped by the first one there is.  Where there is none, both come to their end,
and what is written is read as what is built, by every reader that goes as deep as the
document: `Value.jsonText_agrees_toJson`.  No object has a name twice there, as none has
where programs run.
-/
import Typeforge.Proofs.Documents.Plain

namespace Typeforge

/-! ## What stops the text -/

theorem Written.stop_ok (s : String) : (Written.ok s).stop = none := rfl

namespace Value

theorem firstBigint?_of_isOmitted {v : Value} (h : v.isOmitted = true) : v.firstBigint? = none := by
  cases v <;> first | rfl | cases h

mutual

/-- **The text of a value stops at its first big integer.** -/
theorem stop_jsonText :
    ∀ v : Value, v.jsonText.stop = v.firstBigint?.map .bigIntNotSerializable
  | undefined | null | bool _ | number _ | string _ | bigint _ | symbol _ | regexp _ | date _
  | function _ => rfl
  | array items => by
    rw [jsonText, Written.stop_append_eq, Written.stop_append_eq, stop_jsonItems]
    simp [Written.stop_ok, firstBigint?]
  | object members => by
    rw [jsonText, Written.stop_append_eq, Written.stop_append_eq, stop_jsonMembers]
    simp [Written.stop_ok, firstBigint?]

theorem stop_jsonItems (comma : String) : ∀ items : List Value,
    (jsonItems comma items).stop = (itemsFirstBigint? items).map .bigIntNotSerializable
  | [] => rfl
  | v :: rest => by
    rw [jsonItems, Written.stop_append_eq, Written.stop_append_eq, stop_jsonText v,
      stop_jsonItems "," rest, itemsFirstBigint?, Option.map_or, Written.stop_ok, Option.none_or]

theorem stop_jsonMembers (comma : String) : ∀ members : List (String × Value),
    (jsonMembers comma members).stop = (membersFirstBigint? members).map .bigIntNotSerializable
  | [] => rfl
  | (k, v) :: rest => by
    rw [jsonMembers, membersFirstBigint?]
    -- a member that is left out holds no big integer
    by_cases homitted : v.isOmitted = true
    · rw [if_pos homitted, firstBigint?_of_isOmitted homitted, Option.none_or]
      exact stop_jsonMembers comma rest
    · rw [if_neg homitted, Written.stop_append_eq, Written.stop_append_eq, stop_jsonText v,
        stop_jsonMembers "," rest, Option.map_or, Written.stop_ok, Option.none_or]

end

theorem toExcept_jsonText_of_some {v : Value} {n : Int} (h : v.firstBigint? = some n) :
    v.jsonText.toExcept = .error (.bigIntNotSerializable n) := by
  have hstop : v.jsonText.stop = some (.bigIntNotSerializable n) := by
    rw [stop_jsonText, h]
    rfl
  rw [Written.toExcept, hstop]

/-! ## Both together -/

/-- Where nothing stops them, the text denotes the document. -/
theorem exists_denotedBy_of_none {v : Value} (names : v.hasNames = true) (h : v.firstBigint? = none) :
    ∃ j text, v.toJson = .ok j ∧ v.jsonText.toExcept = .ok text ∧ j.DenotedBy text := by
  rcases v.plain names with @⟨j, text, document, -, written, denotes⟩ | ⟨document, -, written⟩ |
    @⟨e, n, -, -, written⟩
  · exact ⟨j, text, by rw [toJson, document]; rfl, by rw [written]; rfl, denotes⟩
  · exact ⟨.null, "null", by rw [toJson, document]; rfl, by rw [written]; rfl, Json.denotedBy_null⟩
  · rw [stop_jsonText, h] at written
    cases written

/-- **The document and the text of a value agree.** Either the value holds a big integer, and both
fail with the first one; or both succeed, and the text is read as the document, numbers compared as
doubles, by every reader that goes as deep as the document. -/
theorem jsonText_agrees_toJson {v : Value} (names : v.hasNames = true) :
    (∃ n, v.firstBigint? = some n ∧ v.toJson = .error (.bigIntNotSerializable n) ∧
      v.jsonText.toExcept = .error (.bigIntNotSerializable n)) ∨
    (v.firstBigint? = none ∧ ∃ j text, v.toJson = .ok j ∧ v.jsonText.toExcept = .ok text ∧
      ∀ depth, j.depth ≤ depth → ∃ j', Json.readWithin depth text = .ok j' ∧ j'.same j = true) := by
  cases hfirst : v.firstBigint? with
  | some n =>
    have hdocument := v.stopsAt_toJson
    rw [hfirst] at hdocument
    exact .inl ⟨n, rfl, hdocument.eq_error, toExcept_jsonText_of_some hfirst⟩
  | none =>
    obtain ⟨j, text, document, written, denotes⟩ := exists_denotedBy_of_none names hfirst
    refine .inr ⟨rfl, j, text, document, written, fun depth hdepth => ?_⟩
    obtain ⟨j', hread, hsame, -⟩ := denotes.readWithin hdepth
    exact ⟨j', hread, hsame⟩

/-- Parts of every kind but big integers: members that are left out and others, a number that is
none, a zero below zero, an integer beyond those that are their own numbers, and a name to escape. -/
def assorted : Value :=
  .object [("gone", .undefined), ("say \"hi\"\n", .array [.undefined, .number (0 / 0), .number (-0.0),
    .function "f", .number 1e300, .symbol "s"]), ("at", .date ⟨0, 0⟩), ("re", .regexp ⟨"a/", "g"⟩),
    ("tag", .symbol "x"), ("deep", .object [("n", .null), ("b", .bool true), ("s", .string "\x01")])]

theorem jsonText_agrees_toJson_assorted :
    assorted.hasNames = true ∧ (∃ j text, assorted.toJson = .ok j ∧
      assorted.jsonText.toExcept = .ok text ∧ ∀ depth, j.depth ≤ depth →
        ∃ j', Json.readWithin depth text = .ok j' ∧ j'.same j = true) ∧
    (object [("a", assorted), ("b", array [bigint 7, bigint 8])]).hasNames = true ∧
    (object [("a", assorted), ("b", array [bigint 7, bigint 8])]).jsonText.toExcept =
      .error (.bigIntNotSerializable 7) := by
  have names : assorted.hasNames = true := by decide +kernel
  have names' : (object [("a", assorted), ("b", array [bigint 7, bigint 8])]).hasNames = true := by
    decide +kernel
  refine ⟨names, ?_, names', ?_⟩
  · rcases jsonText_agrees_toJson names with ⟨n, hfirst, -⟩ | ⟨-, agrees⟩
    · cases hfirst
    · exact agrees
  · rcases jsonText_agrees_toJson names' with ⟨n, hfirst, -, written⟩ | ⟨hfirst, -⟩
    · cases hfirst
      exact written
    · cases hfirst

end Value

end Typeforge
