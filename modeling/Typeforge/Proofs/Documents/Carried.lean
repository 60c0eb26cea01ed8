/-
# `Typeforge.Proofs.Documents.Carried` — what JSON carries comes back

Values go through JSON in two ways.  Plain data become a document that says the
same: what is read from it is equal to what was written, though not always the
same, since a document does not tell the two zeros apart.  The values that JSON
lacks are carried as strings, undefined as null; each codec reads what it has
written, as long as a regular expression has no flags but the known ones and a
date has no more than milliseconds.
-/
import Typeforge.Graph.Literal
import Typeforge.Proofs.Documents.Dates
import Typeforge.Proofs.Documents.Plain
import Typeforge.Proofs.Types.Parts

namespace Typeforge

/-! ## Numbers -/

/-- A small natural number is whole. -/
theorem wholeNumber?_ofNat {n : Nat} (lt : n < 2 ^ 53) : wholeNumber? (Float.ofNat n) = some (n : Int) := by
  rw [wholeNumber?]
  rcases Nat.eq_zero_or_pos n with rfl | pos
  · rw [show Binary.ofFloat (Float.ofNat 0) = _ from Binary.ofFloat_ofInt_zero]
    decide +kernel
  obtain ⟨m, q, hc, -, hq, hvalue⟩ := Rounding.exists_canonical pos lt
  have hunpack := Rounding.unpack_ofNat pos (hvalue ▸ .exact m q) hc (by omega)
  rw [Binary.unpack_eq] at hunpack
  cases hx : Binary.ofFloat (Float.ofNat n) with
  | nan => rw [hx] at hunpack; cases hunpack
  | infinite negative => rw [hx] at hunpack; cases hunpack
  | finite negative k e =>
    rw [hx, Binary.unpacked] at hunpack
    split at hunpack
    · cases hunpack
    obtain ⟨hsign, rfl, rfl⟩ := Float.Model.UnpackedFloat.finite.inj hunpack
    obtain rfl : negative = false := by
      cases negative with
      | false => rfl
      | true => cases hsign
    cases e with
    | ofNat e =>
      obtain rfl : e = 0 := by
        have : (e : Int) ≤ 0 := hq
        omega
      have hn : k = n := by
        have : (k : ℚ) = n := by simpa using hvalue
        exact_mod_cast this
      rw [hn]
      change some (((n * Nat.pow 2 0 : Nat)) : Int) = _
      simp
    | negSucc e =>
      have hn : k = n * 2 ^ (e + 1) := by
        rw [zpow_negSucc] at hvalue
        have : (k : ℚ) = n * 2 ^ (e + 1) := by
          rw [← hvalue]
          field_simp
        exact_mod_cast this
      have hpos : 0 < Nat.pow 2 (e + 1) := Nat.pow_pos two_pos
      simp only [Binary.toInt?, Nat.pow_eq] at hpos ⊢
      rw [hn, if_pos (Nat.mul_mod_left ..), Nat.mul_div_cancel _ hpos]
      rfl

/-- The number of a member of a union is the same when it comes back. -/
theorem tagNumber?_ofNat {n : Nat} (lt : n < 2 ^ 53) :
    ∃ k, numberToJson (Float.ofNat n) = .number k ∧ tagNumber? k.toFloat = some n := by
  obtain ⟨k, hk⟩ : ∃ k, safeInteger? (Float.ofNat n) = some k ∧ k = n := by
    refine ⟨n, Option.filter_eq_some_iff.mpr ⟨wholeNumber?_ofNat lt, decide_eq_true ?_⟩, rfl⟩
    exact lt.le
  obtain ⟨hk, rfl⟩ := hk
  obtain ⟨negative, m, q, hx⟩ : ∃ negative m q, Binary.ofFloat (Float.ofNat n) = .finite negative m q :=
    (Binary.isFinite_eq _).mp (isFinite_ofNat (lt.trans (by decide)))
  refine ⟨.integer n, ?_, ?_⟩
  · rw [numberToJson, if_pos ((Binary.isFinite_eq _).mpr ⟨negative, m, q, hx⟩), hk]
    rfl
  · rw [tagNumber?, show (JsonNumber.integer n).toFloat = Float.ofNat n from rfl, wholeNumber?_ofNat lt]
    change some (min n largestTag) = some n
    rw [min_eq_left (lt.le.trans (by decide))]

/-! ## Codecs -/

theorem integer?_minus (ds : List Char) : integer? (String.ofList ('-' :: ds)) =
    if ds.isEmpty || !ds.all Char.isDigit then none else some (-(digitsValue ds : Int)) := by
  rw [integer?, String.toList_ofList]
  rfl

theorem integer?_digits {ds : List Char} (h : ds.head? ≠ some '-') : integer? (String.ofList ds) =
    if ds.isEmpty || !ds.all Char.isDigit then none else some (digitsValue ds : Int) := by
  cases ds with
  | nil => rfl
  | cons c cs =>
    rw [integer?, String.toList_ofList]
    split
    rename_i negative digits heq
    split at heq
    · rename_i hcs
      cases hcs
      exact absurd rfl h
    · cases heq
      rfl

/-- An integer is read back from its written form. -/
theorem integer?_integerText (n : Int) : integer? (integerText n) = some n := by
  have hdigits : (Nat.toDigits 10 n.natAbs).all Char.isDigit = true :=
    List.all_eq_true.mpr (isDigit_toDigits n.natAbs)
  have hempty : (Nat.toDigits 10 n.natAbs).isEmpty = false :=
    List.isEmpty_eq_false_iff.mpr (toDigits_ne_nil n.natAbs)
  rw [integerText]
  by_cases hn : n < 0
  · rw [if_pos hn, List.singleton_append, integer?_minus, hdigits, hempty, digitsValue_toDigits]
    change some (-(n.natAbs : Int)) = some n
    congr 1
    omega
  · have hhead : (Nat.toDigits 10 n.natAbs).head? ≠ some '-' := fun h =>
      Bool.false_ne_true (isDigit_toDigits n.natAbs '-' (List.mem_of_head? h))
    rw [if_neg hn, List.nil_append, integer?_digits hhead, hdigits, hempty, digitsValue_toDigits]
    change some (n.natAbs : Int) = some n
    congr 1
    omega

theorem symbolOfText?_mark (d : String) :
    Codec.symbolOfText? (String.ofList (symbolMark ++ d.toList)) = some d := by
  rw [Codec.symbolOfText?]
  simp only [String.toList_ofList]
  rw [if_pos (List.isPrefixOf_iff_prefix.mpr (List.prefix_append _ _)), List.drop_left,
    String.ofList_toList]

theorem Regexp.ofText?_text {r : Regexp} (flags : r.flags.toList.all isFlag = true) :
    Regexp.ofText? r.text = some r := by
  have hslash : ∀ c ∈ r.flags.toList, c ≠ '/' := by
    rintro c hc rfl
    have := List.all_eq_true.mp flags '/' hc
    revert this
    decide
  have htail : (r.source.toList ++ '/' :: r.flags.toList).reverse.takeWhile (· ≠ '/') =
      r.flags.toList.reverse := by
    rw [List.reverse_append, List.reverse_cons, List.append_assoc]
    rw [List.takeWhile_append_of_pos fun c hc => decide_eq_true (hslash c (List.mem_reverse.mp hc))]
    simp
  have hchars : r.text.toList = '/' :: (r.source.toList ++ '/' :: r.flags.toList) := by
    simp [text]
  rw [ofText?, hchars]
  have hlength : (r.source.toList ++ '/' :: r.flags.toList).length - r.flags.toList.length =
      (r.source.toList ++ ['/']).length := by
    simp only [List.length_append, List.length_cons, List.length_nil]
    omega
  have hfront : (r.source.toList ++ '/' :: r.flags.toList).take (r.source.toList ++ ['/']).length =
      r.source.toList ++ ['/'] := by
    rw [show r.source.toList ++ '/' :: r.flags.toList =
      (r.source.toList ++ ['/']) ++ r.flags.toList by simp, List.take_left]
  simp only [htail, List.reverse_reverse, flags, hlength, hfront, List.dropLast_concat,
    String.ofList_toList]
  simp

namespace Codec

/-- Whether a value is one that the codec carries through JSON. -/
def carries : Codec → Value → Bool
  | bigint, .bigint _ | symbol, .symbol _ | undefined, .undefined => true
  | regexp, .regexp r => r.flags.toList.all isFlag
  | date, .date i => i.isProper && i.isMillis
  | _, _ => false

end Codec

/-! ## Documents of wholes -/

namespace Value

variable {α : Type} {l : List α} {f g : α → Value} {d : α → Json} {k : α → String}

theorem ofJsonItems_eq_map (js : List Json) : ofJsonItems js = js.map ofJson := by
  induction js with
  | nil => rfl
  | cons j rest ih => rw [ofJsonItems, ih, List.map_cons]

theorem ofJsonMembers_eq_map (js : List (String × Json)) :
    ofJsonMembers js = js.map fun m => (m.1, ofJson m.2) := by
  induction js with
  | nil => rfl
  | cons m rest ih =>
    obtain ⟨k, j⟩ := m
    rw [ofJsonMembers, ih, List.map_cons]

theorem isUndefined_ofJson (d : Json) : (ofJson d).isUndefined = false := by
  cases d <;> rfl

theorem isNull_ofJson {d : Json} (h : d ≠ .null) : (ofJson d).isNull = false := by
  cases d <;> first | rfl | exact absurd rfl h

/-- Items that have no document are null in the document of the array. -/
theorem toJsonItems_slots {j : α → Option Json} (h : ∀ x ∈ l, (f x).toJsonSlot = .ok (j x)) :
    toJsonItems (l.map f) = .ok (l.map fun x => (j x).getD .null) := by
  induction l with
  | nil => rfl
  | cons x rest ih =>
    obtain ⟨hx, hrest⟩ := List.forall_mem_cons.mp h
    rw [List.map_cons, toJsonItems, hx, ih hrest]
    rfl

theorem toJsonItems_map (h : ∀ x ∈ l, (f x).toJsonSlot = .ok (some (d x))) :
    toJsonItems (l.map f) = .ok (l.map d) := toJsonItems_slots h

theorem toJsonMembers_map (h : ∀ x ∈ l, (f x).toJsonSlot = .ok (some (d x))) :
    toJsonMembers (l.map fun x => (k x, f x)) = .ok (l.map fun x => (k x, d x)) := by
  induction l with
  | nil => rfl
  | cons x rest ih =>
    obtain ⟨hx, hrest⟩ := List.forall_mem_cons.mp h
    rw [List.map_cons, toJsonMembers, hx, ih hrest]
    rfl

theorem equals_array_map (h : ∀ x ∈ l, (f x).equals (g x) = true) :
    (array (l.map f)).equals (array (l.map g)) = true := by
  rw [equals]
  induction l with
  | nil => rfl
  | cons x rest ih =>
    obtain ⟨hx, hrest⟩ := List.forall_mem_cons.mp h
    rw [List.map_cons, List.map_cons, equalItems, hx, ih hrest]
    rfl

theorem equalMembers_map {ns : List (String × Value)}
    (h : ∀ x ∈ l, ∃ v, Members.get? (k x) ns = some v ∧ (f x).equals v = true) :
    equalMembers (l.map fun x => (k x, f x)) ns = true := by
  induction l with
  | nil => rfl
  | cons x rest ih =>
    obtain ⟨⟨v, hget, hv⟩, hrest⟩ := List.forall_mem_cons.mp h
    rw [List.map_cons, equalMembers, hget]
    dsimp only
    rw [hv, ih hrest]
    rfl

/-- Objects with the same names are equal when their members are, name by name. -/
theorem equals_object_map (distinct : (l.map k).Nodup)
    (h : ∀ x ∈ l, (f x).equals (g x) = true) :
    (object (l.map fun x => (k x, f x))).equals (object (l.map fun x => (k x, g x))) = true := by
  rw [equals, List.length_map, List.length_map, beq_self_eq_true, Bool.true_and]
  refine equalMembers_map fun x hx => ⟨g x, ?_, h x hx⟩
  cases hget : Members.get? (k x) (l.map fun x => (k x, g x)) with
  | none =>
    refine absurd ?_ (Members.get?_eq_none hget)
    rw [List.map_map]
    exact List.mem_map_of_mem (f := k) hx
  | some v =>
    obtain ⟨y, hy, heq⟩ := List.mem_map.mp (Members.mem_of_get? hget)
    obtain ⟨hkey, rfl⟩ := Prod.mk.inj heq
    rw [List.inj_on_of_nodup_map distinct hy hx hkey]

theorem depth_array_map_le (h : ∀ x ∈ l, (f x).depth ≤ (g x).depth) :
    (array (l.map f)).depth ≤ (array (l.map g)).depth := by
  refine Nat.add_le_add_right ?_ 1
  induction l with
  | nil => exact le_rfl
  | cons x rest ih =>
    obtain ⟨hx, hrest⟩ := List.forall_mem_cons.mp h
    exact max_le_max hx (ih hrest)

theorem depth_object_map_le (h : ∀ x ∈ l, (f x).depth ≤ (g x).depth) :
    (object (l.map fun x => (k x, f x))).depth ≤ (object (l.map fun x => (k x, g x))).depth := by
  refine Nat.add_le_add_right ?_ 1
  induction l with
  | nil => exact le_rfl
  | cons x rest ih =>
    obtain ⟨hx, hrest⟩ := List.forall_mem_cons.mp h
    exact max_le_max hx (ih hrest)

/-! ## Plain data -/

mutual

/-- Whether a value is plain JSON data. -/
def isData : Value → Bool
  | null | bool _ | string _ => true
  | number x => x.isFinite
  | array items => itemsAreData items
  | object members => membersAreData members
  | _ => false

def itemsAreData : List Value → Bool
  | [] => true
  | v :: rest => v.isData && itemsAreData rest

def membersAreData : List (String × Value) → Bool
  | [] => true
  | (_, v) :: rest => v.isData && membersAreData rest

end

/-- A document is that of a value, and what is read from it is the value again. -/
structure Reads (v : Value) (d : Json) : Prop where
  document : v.toJsonSlot = .ok (some d)
  same : (ofJson d).equals v = true
  deep : v.depth ≤ (ofJson d).depth
  null : d = .null → v = null

mutual

/-- Plain data have a document. -/
theorem exists_reads : ∀ v : Value, v.hasNames = true → v.isData = true → ∃ d, v.Reads d
  | .null, _, _ => ⟨.null, rfl, rfl, le_rfl, fun _ => rfl⟩
  | .bool b, _, _ => ⟨.bool b, rfl, by rw [ofJson, equals]; exact beq_self_eq_true b, le_rfl, nofun⟩
  | .string s, _, _ =>
    ⟨.string s, rfl, by rw [ofJson, equals]; exact beq_self_eq_true s, le_rfl, nofun⟩
  | .number x, _, data => by
    obtain ⟨n, hn, stands⟩ := exists_numberToJson data
    exact ⟨.number n, by rw [toJsonSlot, hn], stands.beq, le_rfl, nofun⟩
  | .array items, names, data => by
    choose! d hd using exists_reads_items items names data
    refine ⟨.array (items.map d), ?_, ?_, ?_, nofun⟩
    · have hitems := toJsonItems_map (f := id) fun v hv => (hd v hv).document
      rw [List.map_id] at hitems
      rw [toJsonSlot, hitems]
      rfl
    · have hsame := equals_array_map (f := fun v => ofJson (d v)) (g := id)
        fun v hv => (hd v hv).same
      rw [List.map_id] at hsame
      rwa [ofJson, ofJsonItems_eq_map, List.map_map]
    · have hdeep := depth_array_map_le (f := id) (g := fun v => ofJson (d v))
        fun v hv => (hd v hv).deep
      rw [List.map_id] at hdeep
      rwa [ofJson, ofJsonItems_eq_map, List.map_map]
  | .object members, names, data => by
    obtain ⟨distinct, names⟩ := Bool.and_eq_true_iff.mp names
    choose! d hd using exists_reads_members members names data
    have heta : (members.map fun m => (m.1, m.2)) = members := List.map_id members
    refine ⟨.object (members.map fun m => (m.1, d m)), ?_, ?_, ?_, nofun⟩
    · have hmembers := toJsonMembers_map (k := Prod.fst) fun m hm => (hd m hm).document
      rw [heta] at hmembers
      rw [toJsonSlot, hmembers]
      rfl
    · have hsame := equals_object_map (k := Prod.fst) (f := fun m => ofJson (d m)) (g := Prod.snd)
        (of_decide_eq_true distinct) fun m hm => (hd m hm).same
      rw [heta] at hsame
      rwa [ofJson, ofJsonMembers_eq_map, List.map_map]
    · have hdeep := depth_object_map_le (k := Prod.fst) (f := Prod.snd)
        (g := fun m => ofJson (d m)) fun m hm => (hd m hm).deep
      rw [heta] at hdeep
      rwa [ofJson, ofJsonMembers_eq_map, List.map_map]

theorem exists_reads_items : ∀ items : List Value, itemsHaveNames items = true →
    itemsAreData items = true → ∀ v ∈ items, ∃ d, v.Reads d
  | [], _, _ => fun _ h => absurd h List.not_mem_nil
  | v :: rest, names, data => by
    obtain ⟨hvNames, names⟩ := Bool.and_eq_true_iff.mp names
    obtain ⟨hvData, data⟩ := Bool.and_eq_true_iff.mp data
    exact List.forall_mem_cons.mpr
      ⟨exists_reads v hvNames hvData, exists_reads_items rest names data⟩

theorem exists_reads_members : ∀ members : List (String × Value),
    membersHaveNames members = true → membersAreData members = true →
    ∀ m ∈ members, ∃ d, m.2.Reads d
  | [], _, _ => fun _ h => absurd h List.not_mem_nil
  | (_, v) :: rest, names, data => by
    obtain ⟨hvNames, names⟩ := Bool.and_eq_true_iff.mp names
    obtain ⟨hvData, data⟩ := Bool.and_eq_true_iff.mp data
    exact List.forall_mem_cons.mpr
      ⟨exists_reads v hvNames hvData, exists_reads_members rest names data⟩

end

end Value

namespace Codec

theorem equals_self {codec : Codec} {v : Value} (h : codec.carries v = true) :
    v.equals v = true := by
  cases codec <;> cases v <;> simp_all [carries, Value.equals]

/-- **What a codec carries comes back.** Its carried form is its own document, or null for the
undefined value. -/
theorem exists_carried {codec : Codec} {v : Value} (h : codec.carries v = true) :
    ∃ d, (codec.encode v).toJsonSlot = .ok (some d) ∧ Value.ofJson d = codec.encode v ∧
      codec.decode (codec.encode v) = .ok v ∧ v.depth = 0 ∧ (d = .null → v = .undefined) := by
  -- all but the undefined value are carried by strings
  have string {s : String} (hencode : codec.encode v = .string s) (htext : codec.ofText? s = some v)
      (defined : codec ≠ undefined) (flat : v.depth = 0) :
      ∃ d, (codec.encode v).toJsonSlot = .ok (some d) ∧ Value.ofJson d = codec.encode v ∧
        codec.decode (codec.encode v) = .ok v ∧ v.depth = 0 ∧ (d = .null → v = .undefined) := by
    refine ⟨.string s, by rw [hencode]; rfl, by rw [hencode]; rfl, ?_, flat, nofun⟩
    rw [hencode]
    cases codec with
    | undefined => exact absurd rfl defined
    | _ => simp only [decode, htext]
  cases codec <;> cases v <;> simp only [carries, Bool.false_eq_true] at h
  case bigint.bigint n =>
    exact string rfl (by rw [ofText?, integer?_integerText]; rfl) nofun rfl
  case symbol.symbol d => exact string rfl (by rw [ofText?, symbolOfText?_mark]; rfl) nofun rfl
  case regexp.regexp r => exact string rfl (by rw [ofText?, Regexp.ofText?_text h]; rfl) nofun rfl
  case date.date i =>
    obtain ⟨proper, millis⟩ := Bool.and_eq_true_iff.mp h
    exact string rfl (by rw [ofText?, Instant.ofText?_text proper millis]; rfl) nofun rfl
  case undefined.undefined => exact ⟨.null, rfl, rfl, rfl, rfl, fun _ => rfl⟩

end Codec

end Typeforge
