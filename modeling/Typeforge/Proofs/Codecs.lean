/-
# `Typeforge.Proofs.Codecs` — strings that carry expressions, symbols and integers

A regular expression is carried as its source between two slashes, with its flags behind
the second one, and a symbol as its description behind a mark.  Nothing is escaped: a
source may hold slashes and line breaks, and what looks like flags.  Even so every string
carries at most one value.  No flag is a slash, so that whatever stands behind the last
slash of a string can only be the flags, and all that stands before it is the source.

The decoders accept exactly the strings that the encoders write for a value that comes
back.  What they do not accept they leave as it is.  `Codec.texts_exact` puts this together;
it has no hypotheses, and where a value does not come back, it says which.
-/
import Typeforge.Proofs.Documents.Carried
import Typeforge.Run.Transforms

namespace Typeforge

/-! ## Regular expressions -/

theorem isFlag_iff {c : Char} : isFlag c = true ↔ c ∈ "dgimsuvy".toList := by
  simp only [isFlag, List.contains_iff_mem]
  exact Iff.rfl

/-- A list falls apart at the last place of a separator: what stands behind it has none. -/
theorem exists_split_last {α : Type} [DecidableEq α] (separator : α) (cs : List α) :
    ∃ front tail, cs = front ++ tail ∧
      (cs.reverse.takeWhile (· ≠ separator)).reverse = tail ∧
      (front = [] ∨ ∃ before, front = before ++ [separator]) := by
  refine ⟨(cs.reverse.dropWhile (· ≠ separator)).reverse,
    (cs.reverse.takeWhile (· ≠ separator)).reverse, ?_, rfl, ?_⟩
  · rw [← List.reverse_append, List.takeWhile_append_dropWhile, List.reverse_reverse]
  · cases hdrop : cs.reverse.dropWhile (· ≠ separator) with
    | nil => exact .inl rfl
    | cons c rest =>
      have hc : (fun d => decide (d ≠ separator)) c = false := by
        have hhead := List.head?_dropWhile_not (fun d => decide (d ≠ separator)) cs.reverse
        rw [hdrop] at hhead
        exact hhead
      have hsep : c = separator := by simpa using hc
      exact .inr ⟨rest.reverse, by rw [List.reverse_cons, hsep]⟩

namespace Regexp

/-- What a string is read as, it is written for. -/
theorem text_of_ofText? {s : String} {r : Regexp} (h : ofText? s = some r) :
    s = r.text ∧ r.flags.toList.all isFlag = true := by
  rw [ofText?] at h
  split at h
  · rename_i cs hcs
    obtain ⟨front, tail, rfl, htail, hfront⟩ := exists_split_last '/' cs
    have htake : (front ++ tail).take ((front ++ tail).length - tail.length) = front := by
      rw [List.length_append, Nat.add_sub_cancel, List.take_left]
    simp only [htail, htake] at h
    split at h
    · cases h
    · rename_i hgood
      simp only [Bool.or_eq_true, not_or, Bool.not_eq_true, List.isEmpty_eq_false_iff,
        Bool.not_eq_false'] at hgood
      obtain ⟨hne, hflags⟩ := hgood
      obtain rfl := Option.some.inj h
      obtain ⟨before, rfl⟩ := hfront.resolve_left hne
      refine ⟨?_, by rwa [String.toList_ofList]⟩
      rw [← String.toList_inj, hcs]
      simp [text]
  · cases h

/-- **A string is read as a regular expression exactly when it is written for it** and the flags
are flags. -/
theorem ofText?_eq_some_iff {s : String} {r : Regexp} :
    ofText? s = some r ↔ s = r.text ∧ r.flags.toList.all isFlag = true := by
  constructor
  · exact text_of_ofText?
  · rintro ⟨rfl, flags⟩
    exact ofText?_text flags

end Regexp

namespace Codec

/-! ## Symbols -/

theorem encode_symbol (d : String) : symbol.encode (.symbol d) = .string ("Symbol:" ++ d) := by
  have hchars : symbolMark ++ d.toList = ("Symbol:" ++ d).toList := by
    rw [String.toList_append]
    simp [symbolMark]
  show Value.string (String.ofList (symbolMark ++ d.toList)) = _
  rw [hchars, String.ofList_toList]

/-- A string is read as a symbol exactly when it is the mark with the description behind it. -/
theorem symbolOfText?_eq_some_iff {s d : String} :
    symbolOfText? s = some d ↔ s = "Symbol:" ++ d := by
  have hmark : "Symbol:" ++ d = String.ofList (symbolMark ++ d.toList) :=
    (Value.string.inj (encode_symbol d)).symm
  constructor
  · intro h
    simp only [symbolOfText?] at h
    split at h
    · rename_i hpre
      obtain ⟨rest, hrest⟩ := List.isPrefixOf_iff_prefix.mp hpre
      obtain rfl := Option.some.inj h
      rw [hmark, String.toList_ofList, ← hrest, List.drop_left, hrest, String.ofList_toList]
    · cases h
  · rintro rfl
    rw [hmark]
    exact symbolOfText?_mark d

/-! ## Decoding -/

/-- All codecs but the one of the undefined value read strings. -/
theorem decode_eq_ok_iff {codec : Codec} (defined : codec ≠ undefined) {v w : Value} :
    codec.decode v = .ok w ↔ ∃ s, v = .string s ∧ codec.ofText? s = some w := by
  have hstring : ∀ s, codec.decode (.string s) = .ok w ↔ codec.ofText? s = some w := by
    intro s
    have hdecode : codec.decode (.string s) =
        (codec.ofText? s).elim (.error (codec.mismatch (.string s))) .ok := by
      rw [decode]
      · split <;> rename_i htext <;> rw [htext] <;> rfl
      · exact defined
    rw [hdecode]
    cases codec.ofText? s <;> simp
  constructor
  · intro h
    cases v with
    | string s => exact ⟨s, rfl, (hstring s).mp h⟩
    | _ =>
      cases codec with
      | undefined => exact absurd rfl defined
      | _ => cases h
  · rintro ⟨s, rfl, h⟩
    exact (hstring s).mpr h

theorem decode_regexp_eq_ok_iff {s : String} {v : Value} :
    regexp.decode (.string s) = .ok v ↔
      ∃ r : Regexp, v = .regexp r ∧ s = r.text ∧ r.flags.toList.all isFlag = true := by
  rw [decode_eq_ok_iff (show regexp ≠ undefined from nofun)]
  simp only [Value.string.injEq, exists_eq_left', ofText?, Option.map_eq_some_iff,
    Regexp.ofText?_eq_some_iff]
  constructor
  · rintro ⟨r, h, rfl⟩
    exact ⟨r, rfl, h⟩
  · rintro ⟨r, rfl, h⟩
    exact ⟨r, h, rfl⟩

theorem decode_symbol_eq_ok_iff {s : String} {v : Value} :
    symbol.decode (.string s) = .ok v ↔ ∃ d, v = .symbol d ∧ s = "Symbol:" ++ d := by
  rw [decode_eq_ok_iff (show symbol ≠ undefined from nofun)]
  simp only [Value.string.injEq, exists_eq_left', ofText?, Option.map_eq_some_iff,
    symbolOfText?_eq_some_iff]
  constructor
  · rintro ⟨d, h, rfl⟩
    exact ⟨d, rfl, h⟩
  · rintro ⟨d, rfl, h⟩
    exact ⟨d, h, rfl⟩

/-! ## Both ways -/

/-- A regular expression comes back exactly when its flags are flags. With other flags its text may
be that of another expression, but never its own. -/
theorem decode_encode_regexp_iff (r : Regexp) :
    regexp.decode (regexp.encode (.regexp r)) = .ok (.regexp r) ↔
      ∀ c ∈ r.flags.toList, c ∈ "dgimsuvy".toList := by
  have hflags : r.flags.toList.all isFlag = true ↔ ∀ c ∈ r.flags.toList, c ∈ "dgimsuvy".toList := by
    simp only [List.all_eq_true, isFlag_iff]
  rw [← hflags]
  change regexp.decode (.string r.text) = _ ↔ _
  rw [decode_regexp_eq_ok_iff]
  constructor
  · rintro ⟨r', heq, -, flags⟩
    cases heq
    exact flags
  · intro flags
    exact ⟨r, rfl, rfl, flags⟩

theorem decode_encode_of_carries {codec : Codec} {v : Value} (h : codec.carries v = true) :
    codec.decode (codec.encode v) = .ok v := by
  obtain ⟨_, -, -, hdecode, -⟩ := exists_carried h
  exact hdecode

theorem encode_of_decode_regexp {s : String} {v : Value} (h : regexp.decode (.string s) = .ok v) :
    regexp.encode v = .string s := by
  obtain ⟨r, rfl, rfl, -⟩ := decode_regexp_eq_ok_iff.mp h
  rfl

theorem encode_of_decode_symbol {s : String} {v : Value} (h : symbol.decode (.string s) = .ok v) :
    symbol.encode v = .string s := by
  obtain ⟨d, rfl, rfl⟩ := decode_symbol_eq_ok_iff.mp h
  exact encode_symbol d

/-- A value that a decoder does not accept stays where it is, as it is. -/
theorem value_of_stop_decode {codec : Codec} {x : Transform.Context} {v : Value}
    (h : ((Transform.decode codec).run x v).stop ≠ none) :
    ((Transform.decode codec).run x v).value = v := by
  rw [Transform.run] at h ⊢
  cases hdecode : codec.decode v with
  | ok w =>
    rw [hdecode] at h
    exact absurd rfl h
  | error e => rfl

/-- **Regular expressions, symbols and integers are carried exactly.** A regular expression comes
back exactly when all its flags are flags, and symbols and integers do in any case. The strings
read as expressions or symbols are those of the written form, and each is written again for what
is read from it. A decoder that refuses a value leaves it as it is. -/
theorem texts_exact :
    (∀ r : Regexp, regexp.decode (regexp.encode (.regexp r)) = .ok (.regexp r) ↔
      ∀ c ∈ r.flags.toList, c ∈ "dgimsuvy".toList) ∧
    (∀ d, symbol.decode (symbol.encode (.symbol d)) = .ok (.symbol d)) ∧
    (∀ n, bigint.decode (bigint.encode (.bigint n)) = .ok (.bigint n)) ∧
    (∀ s, (∃ v, regexp.decode (.string s) = .ok v) ↔ ∃ source flags : String,
      s = "/" ++ source ++ "/" ++ flags ∧ ∀ c ∈ flags.toList, c ∈ "dgimsuvy".toList) ∧
    (∀ s v, regexp.decode (.string s) = .ok v → regexp.encode v = .string s) ∧
    (∀ s, (∃ v, symbol.decode (.string s) = .ok v) ↔ ∃ d, s = "Symbol:" ++ d) ∧
    (∀ s v, symbol.decode (.string s) = .ok v → symbol.encode v = .string s) ∧
    ∀ codec ∈ [regexp, symbol, bigint], ∀ (x : Transform.Context) (v : Value),
      ((Transform.decode codec).run x v).stop ≠ none →
        ((Transform.decode codec).run x v).value = v := by
  refine ⟨decode_encode_regexp_iff, fun _ => decode_encode_of_carries rfl,
    fun _ => decode_encode_of_carries rfl, ?_, fun _ _ => encode_of_decode_regexp, ?_,
    fun _ _ => encode_of_decode_symbol, fun _ _ _ _ => value_of_stop_decode⟩
  · intro s
    simp only [decode_regexp_eq_ok_iff, List.all_eq_true, isFlag_iff]
    constructor
    · rintro ⟨_, r, -, hs, flags⟩
      exact ⟨r.source, r.flags, hs, flags⟩
    · rintro ⟨source, flags, hs, hflags⟩
      exact ⟨_, ⟨source, flags⟩, rfl, hs, hflags⟩
  · intro s
    simp only [decode_symbol_eq_ok_iff]
    constructor
    · rintro ⟨_, d, -, hs⟩
      exact ⟨d, hs⟩
    · rintro ⟨d, hs⟩
      exact ⟨_, d, rfl, hs⟩

/-- A source with a slash, a line break and what looks like flags comes back, and so does the
string it is carried by; a string that ends in no flags is refused and left. -/
theorem texts_exact_slashes :
    regexp.decode (regexp.encode (.regexp ⟨"a/b\n/g", "iy"⟩)) = .ok (.regexp ⟨"a/b\n/g", "iy"⟩) ∧
    (regexp.decode (.string "/a/g/i") = .ok (.regexp ⟨"a/g", "i"⟩) ∧
      regexp.encode (.regexp ⟨"a/g", "i"⟩) = .string "/a/g/i") ∧
    ∀ x, ((Transform.decode regexp).run x (.string "/a/b")).stop ≠ none ∧
      ((Transform.decode regexp).run x (.string "/a/b")).value = .string "/a/b" := by
  obtain ⟨regexps, -, -, -, rewritten, -, -, unchanged⟩ := texts_exact
  have hread : regexp.decode (.string "/a/g/i") = .ok (.regexp ⟨"a/g", "i"⟩) :=
    decode_regexp_eq_ok_iff.mpr ⟨_, rfl, by decide, by decide⟩
  refine ⟨(regexps _).mpr (by simp), ⟨hread, rewritten _ _ hread⟩, fun x => ?_⟩
  have hstop : ((Transform.decode regexp).run x (.string "/a/b")).stop ≠ none := nofun
  exact ⟨hstop, unchanged regexp List.mem_cons_self x _ hstop⟩

end Codec

end Typeforge
