/-
# `Typeforge.Proofs.Documents.Reading` — what a text denotes

A text denotes a document if reading the text gives the document, up to the form
of its numbers: integers and reals are the same document where they are the same
double.  The reader goes down to a depth limit, which is the reader's and not the
text's, so a text denotes its document as long as the limit is high enough.

Texts are put together as values are: what the pieces denote decides what the
whole denotes.
-/
import Typeforge.Proofs.Documents.Scanning

namespace Typeforge

namespace RawJson

mutual

/-- How deep arrays and objects stand inside one another. -/
def depth : RawJson → Nat
  | array items => itemsDepth items + 1
  | object members => membersDepth members + 1
  | _ => 0

def itemsDepth : List RawJson → Nat
  | [] => 0
  | j :: rest => max j.depth (itemsDepth rest)

def membersDepth : List (String × RawJson) → Nat
  | [] => 0
  | (_, j) :: rest => max j.depth (membersDepth rest)

end

mutual

/-- What a reader finds that goes down to a depth: deeper arrays and objects stand for nothing. -/
def cut (d : Nat) : RawJson → RawJson
  | array items =>
    match d with
    | 0 => unreadable .tooDeep
    | d + 1 => array (cutItems d items)
  | object members =>
    match d with
    | 0 => unreadable .tooDeep
    | d + 1 => object (cutMembers d members)
  | j => j

def cutItems (d : Nat) : List RawJson → List RawJson
  | [] => []
  | j :: rest => j.cut d :: cutItems d rest

def cutMembers (d : Nat) : List (String × RawJson) → List (String × RawJson)
  | [] => []
  | (k, j) :: rest => (k, j.cut d) :: cutMembers d rest

end

mutual

/-- Nothing is cut off what is not too deep. -/
theorem cut_eq : ∀ (j : RawJson) {d : Nat}, j.depth ≤ d → j.cut d = j
  | null, _, _ | bool _, _, _ | number _, _, _ | string _, _, _ | unreadable _, _, _ => rfl
  | array _, 0, h | object _, 0, h => absurd h (Nat.not_succ_le_zero _)
  | array items, _ + 1, h => congrArg array (cutItems_eq items (Nat.le_of_succ_le_succ h))
  | object members, _ + 1, h => congrArg object (cutMembers_eq members (Nat.le_of_succ_le_succ h))

theorem cutItems_eq : ∀ (items : List RawJson) {d : Nat}, itemsDepth items ≤ d →
    cutItems d items = items
  | [], _, _ => rfl
  | j :: rest, d, h => by
    obtain ⟨hfirst, hrest⟩ := max_le_iff.mp h
    rw [cutItems, cut_eq j hfirst, cutItems_eq rest hrest]

theorem cutMembers_eq : ∀ (members : List (String × RawJson)) {d : Nat}, membersDepth members ≤ d →
    cutMembers d members = members
  | [], _, _ => rfl
  | (k, j) :: rest, d, h => by
    obtain ⟨hfirst, hrest⟩ := max_le_iff.mp h
    rw [cutMembers, cut_eq j hfirst, cutMembers_eq rest hrest]

end

mutual

/-- What is too deep is no document once it is cut. -/
theorem toJson_cut : ∀ (j : RawJson) {d : Nat} {document : Json}, d < j.depth →
    j.toJson = .ok document → (j.cut d).toJson = .error .tooDeep
  | null, _, _, h, _ | bool _, _, _, h, _ | number _, _, _, h, _ | string _, _, _, h, _
  | unreadable _, _, _, h, _ => absurd h (Nat.not_lt_zero _)
  | array _, 0, _, _, _ | object _, 0, _, _, _ => rfl
  | array items, d + 1, _, h, hjson => by
    obtain ⟨js, hitems, -⟩ := Except.map_eq_ok.mp hjson
    change (itemsToJson (cutItems d items)).map Json.array = _
    rw [itemsToJson_cut items (Nat.lt_of_succ_lt_succ h) hitems]
    rfl
  | object members, d + 1, _, h, hjson => by
    obtain ⟨js, hmembers, -⟩ := Except.map_eq_ok.mp hjson
    change (membersToJson (cutMembers d members)).map _ = _
    rw [membersToJson_cut members (Nat.lt_of_succ_lt_succ h) hmembers]
    rfl

theorem itemsToJson_cut : ∀ (items : List RawJson) {d : Nat} {documents : List Json},
    d < itemsDepth items → itemsToJson items = .ok documents →
    itemsToJson (cutItems d items) = .error .tooDeep
  | [], _, _, h, _ => absurd h (Nat.not_lt_zero _)
  | j :: rest, d, _, h, hjson => by
    obtain ⟨document, hfirst, hjson⟩ := Except.bind_eq_ok.mp hjson
    obtain ⟨documents, hrest, -⟩ := Except.bind_eq_ok.mp hjson
    rw [cutItems, itemsToJson]
    rcases lt_or_ge d j.depth with hdeep | hshallow
    · rw [toJson_cut j hdeep hfirst]
      rfl
    · rw [cut_eq j hshallow, hfirst,
        itemsToJson_cut rest ((lt_max_iff.mp h).resolve_left hshallow.not_gt) hrest]
      rfl

theorem membersToJson_cut : ∀ (members : List (String × RawJson)) {d : Nat}
    {documents : List (String × Json)}, d < membersDepth members →
    membersToJson members = .ok documents → membersToJson (cutMembers d members) = .error .tooDeep
  | [], _, _, h, _ => absurd h (Nat.not_lt_zero _)
  | (k, j) :: rest, d, _, h, hjson => by
    obtain ⟨document, hfirst, hjson⟩ := Except.bind_eq_ok.mp hjson
    obtain ⟨documents, hrest, -⟩ := Except.bind_eq_ok.mp hjson
    rw [cutMembers, membersToJson]
    rcases lt_or_ge d j.depth with hdeep | hshallow
    · rw [toJson_cut j hdeep hfirst]
      rfl
    · rw [cut_eq j hshallow, hfirst,
        membersToJson_cut rest ((lt_max_iff.mp h).resolve_left hshallow.not_gt) hrest]
      rfl

end

theorem cutItems_eq_map (d : Nat) (items : List RawJson) : cutItems d items = items.map (cut d) := by
  induction items with
  | nil => rfl
  | cons j rest ih => rw [cutItems, ih, List.map_cons]

theorem cutMembers_eq_map (d : Nat) (members : List (String × RawJson)) :
    cutMembers d members = members.map fun m => (m.1, m.2.cut d) := by
  induction members with
  | nil => rfl
  | cons m rest ih => rw [cutMembers, ih, List.map_cons]

end RawJson

namespace Json

/-- How deep arrays and objects stand inside one another in its text. -/
def depth (j : Json) : Nat := (RawJson.ofJson j).depth

mutual

/-- Whether two documents are the same, numbers compared as doubles. -/
def same : Json → Json → Bool
  | null, null => true
  | bool a, bool b => a == b
  | number m, number n => m.toFloat == n.toFloat
  | string s, string t => s == t
  | array xs, array ys => sameItems xs ys
  | object ms, object ns => sameMembers ms ns
  | _, _ => false

def sameItems : List Json → List Json → Bool
  | [], [] => true
  | x :: xs, y :: ys => x.same y && sameItems xs ys
  | _, _ => false

/-- Members have to be the same in one order. -/
def sameMembers : List (String × Json) → List (String × Json) → Bool
  | [], [] => true
  | (k, x) :: ms, (l, y) :: ns => k == l && x.same y && sameMembers ms ns
  | _, _ => false

end

/-- Whether the reader, with a limit of its depth, takes a value off the front of a text. -/
def ReadsWithin (depth : Nat) (cs : List Char) (raw : RawJson) : Prop :=
  ∀ bound, cs.length ≤ bound → ∀ rest, Ends rest →
    readValue bound depth (cs ++ rest) = .ok (raw, rest)

/-- Whether the reader does so with every limit, but for what is too deep, and passes over it where all
of it is. -/
structure Reads (cs : List Char) (raw : RawJson) : Prop where
  passes : Passes cs
  within : ∀ d, ReadsWithin d cs (raw.cut d)

/-- Whether what stands in a text is a document, up to the form of its numbers. -/
structure StandsFor (raw : RawJson) (j : Json) : Prop where
  depth : raw.depth = j.depth
  document : ∃ j', raw.toJson = .ok j' ∧ j'.same j = true ∧ Value.ofJson j' = Value.ofJson j

/-- Whether a text denotes a document. -/
def DenotedBy (j : Json) (text : String) : Prop :=
  ∃ raw, Reads text.toList raw ∧ StandsFor raw j

variable {depth : Nat} {cs : List Char} {raw : RawJson} {j : Json} {text : String}

/-! ## Blanks -/

/-- Blanks may be skipped before the reader does. -/
theorem readValue_skipBlanks (bound : Nat) (depth : Nat) (cs : List Char) :
    readValue bound depth (skipBlanks cs) = readValue bound depth cs := by
  cases depth with
  | zero => rw [readValue, readValueWith, readValueWith, skipBlanks_skipBlanks]
  | succ depth => rw [readValue, readValueWith, readValueWith, skipBlanks_skipBlanks]

/-! ## A whole text -/

/-- The whole of a text is read. -/
theorem Reads.readWithin (h : Reads text.toList raw) (d : Nat) :
    readWithin d text = (raw.cut d).toJson := by
  have hread := h.within d text.length String.length_toList.le [] nofun
  rw [List.append_nil] at hread
  rw [Json.readWithin, hread]
  rfl

/-- A text that denotes a document is read as what stands for it, with every limit that the document
is not too deep for. -/
theorem DenotedBy.readWithin (h : j.DenotedBy text) {d : Nat} (hd : j.depth ≤ d) :
    ∃ j', readWithin d text = .ok j' ∧ j'.same j = true ∧ Value.ofJson j' = Value.ofJson j := by
  obtain ⟨raw, hreads, hdepth, j', hjson, hsame, hvalue⟩ := h
  refine ⟨j', ?_, hsame, hvalue⟩
  rw [hreads.readWithin, raw.cut_eq (hdepth.trans_le hd), hjson]

/-- A text that denotes a document that is too deep is not read. -/
theorem DenotedBy.readWithin_of_lt (h : j.DenotedBy text) {d : Nat} (hd : d < j.depth) :
    Json.readWithin d text = .error .tooDeep := by
  obtain ⟨raw, hreads, hdepth, j', hjson, -⟩ := h
  rw [hreads.readWithin, raw.toJson_cut (hdepth ▸ hd) hjson]

/-- **A text that denotes a document is read as it**, unless the document is too deep. -/
theorem DenotedBy.read (h : j.DenotedBy text) :
    ∃ depth, ∀ d, depth ≤ d → ∃ j', Json.readWithin d text = .ok j' ∧ j'.same j = true := by
  refine ⟨j.depth, fun d hd => ?_⟩
  obtain ⟨j', hread, hsame, -⟩ := h.readWithin hd
  exact ⟨j', hread, hsame⟩

/-! ## Values without parts -/

theorem reads_leaf {c : Char} (hblank : isBlank c = false) (harray : c ≠ '[') (hobject : c ≠ '\x7b')
    (uncut : ∀ d, raw.cut d = raw) (h : ∀ bound, (c :: cs).length ≤ bound → ∀ rest, Ends rest →
      readLeaf bound (c :: cs ++ rest) = .ok (raw, rest)) : Reads (c :: cs) raw := by
  refine ⟨passes_leaf hblank harray hobject h, fun d bound hbound rest hrest => ?_⟩
  rw [uncut]
  have hwith (nested? : Option (Reader RawJson)) :
      readValueWith bound nested? (c :: cs ++ rest) = .ok (raw, rest) := by
    rw [readValueWith, List.cons_append, skipBlanks_cons hblank]
    split
    · rename_i heq
      exact absurd (List.cons.inj heq).1 harray
    · rename_i heq
      exact absurd (List.cons.inj heq).1 hobject
    · exact h bound hbound rest hrest
  cases d with
  | zero => exact hwith none
  | succ d => exact hwith _

/-- A value without parts stands for a document. -/
theorem standsFor_leaf {j' : Json} (depth : raw.depth = j.depth) (toJson : raw.toJson = .ok j')
    (same : j'.same j = true) (value : Value.ofJson j' = Value.ofJson j) : StandsFor raw j :=
  ⟨depth, j', toJson, same, value⟩

theorem reads_null : Reads "null".toList .null :=
  reads_leaf rfl (by decide) (by decide) (fun _ => rfl) fun _ _ _ _ => rfl

theorem denotedBy_null : null.DenotedBy "null" := ⟨.null, reads_null, standsFor_leaf rfl rfl rfl rfl⟩

theorem reads_bool (b : Bool) : Reads (if b then "true" else "false").toList (.bool b) := by
  cases b with
  | true => exact reads_leaf rfl (by decide) (by decide) (fun _ => rfl) fun _ _ _ _ => rfl
  | false => exact reads_leaf rfl (by decide) (by decide) (fun _ => rfl) fun _ _ _ _ => rfl

theorem denotedBy_bool (b : Bool) : (bool b).DenotedBy (if b then "true" else "false") :=
  ⟨.bool b, reads_bool b, standsFor_leaf rfl rfl (by cases b <;> rfl) rfl⟩

/-! ## Strings -/

theorem reads_string (s : String) : Reads (quoted s).toList (.string s) := by
  rw [toList_quoted]
  refine reads_leaf rfl (by decide) (by decide) (fun _ => rfl) fun bound hbound rest _ => ?_
  change readLeaf bound (quotedChars s.toList ++ rest) = _
  rw [quotedChars, List.cons_append, List.cons_append, List.append_assoc, List.singleton_append,
    readLeaf, readString_quoted s hbound]
  rfl

theorem denotedBy_string (s : String) : (string s).DenotedBy (quoted s) :=
  ⟨.string s, reads_string s, standsFor_leaf rfl rfl (by rw [same, beq_self_eq_true]) rfl⟩

/-! ## Arrays -/

theorem forall₂_readsWithin {texts : List (List Char)} {raws : List RawJson}
    (h : List.Forall₂ Reads texts raws) (d : Nat) :
    List.Forall₂ (ReadsWithin d) texts (RawJson.cutItems d raws) := by
  rw [RawJson.cutItems_eq_map, List.forall₂_map_right_iff]
  exact h.imp fun _ _ hreads => hreads.within d

/-- No text without characters is read. -/
theorem ReadsWithin.ne_nil (h : ReadsWithin depth cs raw) : cs ≠ [] := by
  rintro rfl
  have hread := h 0 (Nat.le_refl _) [] nofun
  cases depth <;> cases hread

theorem readItems_skipBlanks (bound depth fuel : Nat) (cs : List Char) :
    readItems (readValue bound depth) fuel (skipBlanks cs) =
      readItems (readValue bound depth) fuel cs := by
  cases fuel with
  | zero => rfl
  | succ fuel => rw [readItems, readItems, readValue_skipBlanks]

theorem readItems_last {value : Reader RawJson} {fuel : Nat} {cs rest : List Char}
    (h : value cs = .ok (raw, ']' :: rest)) : readItems value (fuel + 1) cs = .ok ([raw], rest) := by
  rw [readItems, h]
  rfl

theorem readItems_next {value : Reader RawJson} {fuel : Nat} {cs rest rest' : List Char}
    {raws : List RawJson} (h : value cs = .ok (raw, ',' :: rest))
    (hrest : readItems value fuel rest = .ok (raws, rest')) :
    readItems value (fuel + 1) cs = .ok (raw :: raws, rest') := by
  rw [readItems, h]
  change (readItems value fuel rest >>= _) = _
  rw [hrest]
  rfl

theorem readItems_intercalate {texts : List (List Char)} {raws : List RawJson}
    (h : List.Forall₂ (ReadsWithin depth) texts raws) (nonempty : texts ≠ []) {bound fuel : Nat}
    (hbound : ([','].intercalate texts).length ≤ bound)
    (hfuel : ([','].intercalate texts).length ≤ fuel) (rest : List Char) :
    readItems (readValue bound depth) fuel ([','].intercalate texts ++ ']' :: rest) =
      .ok (raws, rest) := by
  induction h generalizing fuel with
  | nil => exact absurd rfl nonempty
  | @cons cs raw texts raws hfirst hothers ih =>
    have hpos := List.length_pos_iff.mpr hfirst.ne_nil
    cases hothers with
    | nil =>
      rw [List.intercalate_singleton] at hbound hfuel ⊢
      obtain ⟨fuel, rfl⟩ := Nat.exists_eq_add_one_of_ne_zero (by omega : fuel ≠ 0)
      exact readItems_last (hfirst bound hbound _ (ends_cons (.inr (.inl rfl)) _))
    | cons hnext hothers =>
      rw [List.intercalate_cons_cons] at hbound hfuel ⊢
      simp only [List.length_append, List.length_singleton] at hbound hfuel
      obtain ⟨fuel, rfl⟩ := Nat.exists_eq_add_one_of_ne_zero (by omega : fuel ≠ 0)
      rw [List.append_assoc, List.append_assoc, List.singleton_append]
      exact readItems_next (hfirst bound (by omega) _ (ends_cons (.inl rfl) _))
        (ih (List.cons_ne_nil _ _) (by omega) (by omega))

theorem readValue_closing (bound depth : Nat) (rest : List Char) :
    readValue bound depth (']' :: rest) = .error (.unexpected ']') := by
  cases depth <;> rfl

/-- An array with items is read item by item. -/
theorem readValue_array {bound : Nat} {cs rest : List Char} {raws : List RawJson}
    (h : readItems (readValue bound depth) bound cs = .ok (raws, rest)) :
    readValue bound (depth + 1) ('[' :: cs) = .ok (.array raws, rest) := by
  rw [← readItems_skipBlanks] at h
  rw [readValue, readValueWith, skipBlanks_cons rfl]
  split
  · rename_i heq
    obtain rfl := (List.cons.inj heq).2
    dsimp only
    split
    · rename_i hclosing
      rw [hclosing] at h
      cases bound with
      | zero => cases h
      | succ bound =>
        rw [readItems, readValue_closing] at h
        cases h
    · rw [h]
      rfl
  · rename_i heq
    exact absurd (List.cons.inj heq).1 (by decide)
  · rename_i hne _
    exact absurd rfl (hne _)

theorem reads_array {texts : List (List Char)} {raws : List RawJson}
    (h : List.Forall₂ Reads texts raws) :
    Reads ('[' :: ([','].intercalate texts ++ [']'])) (.array raws) := by
  have passes : ∀ cs ∈ texts, Passes cs := fun cs hcs => by
    obtain ⟨raw, -, hreads⟩ := exists_of_forall₂_left h hcs
    exact hreads.passes
  refine ⟨passes_array passes, fun d bound hbound rest _ => ?_⟩
  simp only [List.length_cons, List.length_append, List.length_nil] at hbound
  rw [List.cons_append, List.append_assoc, List.singleton_append]
  cases d with
  | zero =>
    have hscan := scanned_array passes (show _ ≤ bound by omega)
      (show ScannedOut bound 0 [] rest rest from rfl) (4 * bound + 4) (by omega)
    rw [readValue, readValueWith, skipBlanks_cons rfl]
    simp only [readTooDeep, hscan]
    rfl
  | succ d =>
    cases texts with
    | nil =>
      cases h
      rfl
    | cons cs texts =>
      exact readValue_array (readItems_intercalate (forall₂_readsWithin h d) (List.cons_ne_nil _ _)
        (by omega) (by omega) rest)

/-- The characters of an array. -/
theorem toList_bracketed (texts : List String) :
    (Emit.bracketed texts).toList = '[' :: ([','].intercalate (texts.map String.toList) ++ [']']) := by
  simp only [Emit.bracketed, String.toList_append, String.toList_intercalate]
  rfl

theorem standsFor_array {raws : List RawJson} {items : List Json}
    (h : List.Forall₂ StandsFor raws items) : StandsFor (.array raws) (array items) := by
  suffices hitems : RawJson.itemsDepth raws = RawJson.itemsDepth (RawJson.itemsOfJson items) ∧
      ∃ js, RawJson.itemsToJson raws = .ok js ∧ sameItems js items = true ∧
        Value.ofJsonItems js = Value.ofJsonItems items by
    obtain ⟨hdepth, js, hjson, hsame, hvalue⟩ := hitems
    refine ⟨congrArg Nat.succ hdepth, array js, ?_, hsame, congrArg Value.array hvalue⟩
    rw [RawJson.toJson, hjson]
    rfl
  induction h with
  | nil => exact ⟨rfl, [], rfl, rfl, rfl⟩
  | cons h _ ih =>
    obtain ⟨hdepth, j', hjson, hsame, hvalue⟩ := h
    obtain ⟨hdepths, js, hjsons, hsames, hvalues⟩ := ih
    refine ⟨congrArg₂ max hdepth hdepths, j' :: js, ?_, ?_, ?_⟩
    · rw [RawJson.itemsToJson, hjson, hjsons]
      rfl
    · rw [sameItems, hsame, hsames]
      rfl
    · rw [Value.ofJsonItems, Value.ofJsonItems, hvalue, hvalues]

theorem exists_items_of_denotedBy {texts : List String} {items : List Json}
    (h : List.Forall₂ DenotedBy items texts) :
    ∃ raws : List RawJson, List.Forall₂ Reads (texts.map String.toList) raws ∧
      List.Forall₂ StandsFor raws items := by
  induction h with
  | nil => exact ⟨[], .nil, .nil⟩
  | cons h _ ih =>
    obtain ⟨raw, hreads, stands⟩ := h
    obtain ⟨raws, hreads', stands'⟩ := ih
    exact ⟨raw :: raws, .cons hreads hreads', .cons stands stands'⟩

theorem denotedBy_array {texts : List String} {items : List Json}
    (h : List.Forall₂ DenotedBy items texts) : (array items).DenotedBy (Emit.bracketed texts) := by
  obtain ⟨raws, hreads, stands⟩ := exists_items_of_denotedBy h
  refine ⟨.array raws, ?_, standsFor_array stands⟩
  rw [toList_bracketed]
  exact reads_array hreads

/-! ## Objects -/

/-- Whether the reader takes the value of a member off the front of a text. -/
def ReadsMember (depth : Nat) (cs : List Char) (member : String × RawJson) : Prop :=
  ∃ value, cs = memberChars member.1 value ∧ ReadsWithin depth value member.2

section Members

variable {value : Reader RawJson} {bound fuel : Nat} {name : String} {members : List (String × RawJson)}
  {cs rest rest' : List Char}

theorem readMembers_last (hname : (quotedChars name.toList).length ≤ bound)
    (h : value (cs ++ '\x7d' :: rest) = .ok (raw, '\x7d' :: rest)) :
    readMembers bound value (fuel + 1) (memberChars name cs ++ '\x7d' :: rest) =
      .ok (some [(name, raw)], rest) := by
  rw [memberChars_append, readMembers]
  change (readString bound _ >>= _) = _
  rw [readString_quoted name hname]
  change (value _ >>= _) = _
  rw [h]
  rfl

theorem readMembers_next (hname : (quotedChars name.toList).length ≤ bound)
    (h : value (cs ++ ',' :: rest) = .ok (raw, ',' :: rest))
    (hrest : readMembers bound value fuel rest = .ok (some members, rest')) :
    readMembers bound value (fuel + 1) (memberChars name cs ++ ',' :: rest) =
      .ok (some ((name, raw) :: members), rest') := by
  rw [memberChars_append, readMembers]
  change (readString bound _ >>= _) = _
  rw [readString_quoted name hname]
  change (value _ >>= _) = _
  rw [h]
  change (readMembers bound value fuel rest >>= _) = _
  rw [hrest]
  rfl

end Members

theorem ReadsMember.length_pos {member : String × RawJson} (h : ReadsMember depth cs member) :
    0 < cs.length := by
  obtain ⟨value, rfl, -⟩ := h
  rw [memberChars, quotedChars]
  exact Nat.succ_pos _

theorem readMembers_intercalate {texts : List (List Char)} {members : List (String × RawJson)}
    (h : List.Forall₂ (ReadsMember depth) texts members) (nonempty : texts ≠ []) {bound fuel : Nat}
    (hbound : ([','].intercalate texts).length ≤ bound)
    (hfuel : ([','].intercalate texts).length ≤ fuel) (rest : List Char) :
    readMembers bound (readValue bound depth) fuel ([','].intercalate texts ++ '\x7d' :: rest) =
      .ok (some members, rest) := by
  induction h generalizing fuel with
  | nil => exact absurd rfl nonempty
  | @cons cs member texts members hfirst hothers ih =>
    have hpos := hfirst.length_pos
    obtain ⟨value, rfl, hvalue⟩ := hfirst
    have hlength : (memberChars member.1 value).length =
        (quotedChars member.1.toList).length + (value.length + 1) := by
      rw [memberChars, List.length_append, List.length_cons]
    cases hothers with
    | nil =>
      rw [List.intercalate_singleton] at hbound hfuel ⊢
      obtain ⟨fuel, rfl⟩ := Nat.exists_eq_add_one_of_ne_zero (by omega : fuel ≠ 0)
      exact readMembers_last (by omega)
        (hvalue bound (by omega) _ (ends_cons (.inr (.inr rfl)) _))
    | cons hnext hothers =>
      rw [List.intercalate_cons_cons] at hbound hfuel ⊢
      simp only [List.length_append, List.length_singleton] at hbound hfuel
      obtain ⟨fuel, rfl⟩ := Nat.exists_eq_add_one_of_ne_zero (by omega : fuel ≠ 0)
      rw [List.append_assoc, List.append_assoc, List.singleton_append]
      exact readMembers_next (by omega) (hvalue bound (by omega) _ (ends_cons (.inl rfl) _))
        (ih (List.cons_ne_nil _ _) (by omega) (by omega))

/-- An object with members is read member by member. -/
theorem readValue_object {bound : Nat} {rest : List Char} {members : List (String × RawJson)}
    (h : readMembers bound (readValue bound depth) bound ('"' :: cs) = .ok (some members, rest)) :
    readValue bound (depth + 1) ('\x7b' :: '"' :: cs) = .ok (.object members, rest) := by
  rw [readValue]
  change (readMembers bound (readValue bound depth) bound ('"' :: cs) >>= _) = _
  rw [h]
  rfl

/-- Whether a text is a member, whose value the reader takes off the front of it. -/
def MemberReads (cs : List Char) (member : String × RawJson) : Prop :=
  ∃ value, cs = memberChars member.1 value ∧ Reads value member.2

theorem forall₂_readsMember {texts : List (List Char)} {members : List (String × RawJson)}
    (h : List.Forall₂ MemberReads texts members) (d : Nat) :
    List.Forall₂ (ReadsMember d) texts (RawJson.cutMembers d members) := by
  rw [RawJson.cutMembers_eq_map, List.forall₂_map_right_iff]
  exact h.imp fun _ _ ⟨value, hcs, hreads⟩ => ⟨value, hcs, hreads.within d⟩

theorem reads_object {texts : List (List Char)} {members : List (String × RawJson)}
    (h : List.Forall₂ MemberReads texts members) :
    Reads ('\x7b' :: ([','].intercalate texts ++ ['\x7d'])) (.object members) := by
  have passes : ∀ cs ∈ texts, ∃ name value, cs = memberChars name value ∧ Passes value := by
    intro cs hcs
    obtain ⟨member, -, value, hcs, hreads⟩ := exists_of_forall₂_left h hcs
    exact ⟨member.1, value, hcs, hreads.passes⟩
  refine ⟨passes_object passes, fun d bound hbound rest _ => ?_⟩
  simp only [List.length_cons, List.length_append, List.length_nil] at hbound
  rw [List.cons_append, List.append_assoc, List.singleton_append]
  cases d with
  | zero =>
    have hscan := scanned_object passes (show _ ≤ bound by omega)
      (show ScannedOut bound 0 [] rest rest from rfl) (4 * bound + 4) (by omega)
    rw [readValue, readValueWith, skipBlanks_cons rfl]
    simp only [readTooDeep, hscan]
    rfl
  | succ d =>
    cases texts with
    | nil =>
      cases h
      rfl
    | cons cs texts =>
      have hread := readMembers_intercalate (forall₂_readsMember h d) (List.cons_ne_nil _ _)
        (show _ ≤ bound by omega) (show _ ≤ bound by omega) rest
      -- the first name begins with a quotation mark, which no blank stands before
      obtain ⟨tail, htail⟩ : ∃ tail,
          [','].intercalate (cs :: texts) ++ '\x7d' :: rest = '"' :: tail := by
        cases h with
        | cons h _ =>
          obtain ⟨value, rfl, -⟩ := h
          cases texts with
          | nil => exact ⟨_, by rw [List.intercalate_singleton, memberChars_append]⟩
          | cons cs texts =>
            exact ⟨_, by rw [List.intercalate_cons_cons, List.append_assoc, List.append_assoc,
              memberChars_append]⟩
      rw [htail] at hread ⊢
      exact readValue_object hread

/-- The characters of an object. -/
theorem toList_braced (texts : List String) :
    (Emit.braced texts).toList =
      '\x7b' :: ([','].intercalate (texts.map String.toList) ++ ['\x7d']) := by
  simp only [Emit.braced, String.toList_append, String.toList_intercalate]
  rfl

/-- Where names are different, entering members one after the other changes nothing. -/
theorem ofList_eq {α : Type} {members : List (String × α)} (h : (members.map Prod.fst).Nodup) :
    Members.ofList members = members := by
  suffices hput : ∀ (before : List (String × α)), ((before ++ members).map Prod.fst).Nodup →
      Members.putAll before members = before ++ members by
    exact hput [] h
  clear h
  induction members with
  | nil => exact fun before _ => (List.append_nil _).symm
  | cons m rest ih =>
    intro before h
    have hput : Members.put m.1 m.2 before = before ++ [m] := by
      have hfresh : m.1 ∉ before.map Prod.fst := by
        rw [List.map_append, List.nodup_append] at h
        exact fun hm => h.2.2 _ hm _ List.mem_cons_self rfl
      clear h
      induction before with
      | nil => rfl
      | cons b before ih' =>
        rw [List.map_cons, List.mem_cons, not_or] at hfresh
        rw [Members.put, if_neg (Ne.symm hfresh.1), ih' hfresh.2]
        rfl
    have := ih (before ++ [m]) (by rwa [List.append_assoc, List.singleton_append])
    rw [List.append_assoc, List.singleton_append] at this
    rw [← this, Members.putAll, List.foldl_cons, hput]
    rfl

/-- What the text of a member denotes. -/
def MemberDenotedBy (member : String × Json) (text : String) : Prop :=
  ∃ value, text = quoted member.1 ++ ":" ++ value ∧ member.2.DenotedBy value

theorem standsFor_object {raws : List (String × RawJson)} {members : List (String × Json)}
    (h : List.Forall₂ (fun raw m => raw.1 = m.1 ∧ StandsFor raw.2 m.2) raws members)
    (distinct : (members.map Prod.fst).Nodup) : StandsFor (.object raws) (object members) := by
  suffices hmembers : RawJson.membersDepth raws =
        RawJson.membersDepth (RawJson.membersOfJson members) ∧
      ∃ js : List (String × Json), RawJson.membersToJson raws = .ok js ∧
        sameMembers js members = true ∧ Value.ofJsonMembers js = Value.ofJsonMembers members ∧
        js.map Prod.fst = members.map Prod.fst by
    obtain ⟨hdepth, js, hjson, hsame, hvalue, hnames⟩ := hmembers
    refine ⟨congrArg Nat.succ hdepth, object js, ?_, hsame, congrArg Value.object hvalue⟩
    rw [RawJson.toJson, hjson]
    exact congrArg (fun ms => Except.ok (object ms)) (ofList_eq (by rwa [hnames]))
  clear distinct
  induction h with
  | nil => exact ⟨rfl, [], rfl, rfl, rfl, rfl⟩
  | @cons raw m _ _ h _ ih =>
    obtain ⟨name, raw⟩ := raw
    obtain ⟨rfl, hdepth, j', hjson, hsame, hvalue⟩ := h
    obtain ⟨hdepths, js, hjsons, hsames, hvalues, hnames⟩ := ih
    refine ⟨congrArg₂ max hdepth hdepths, (m.1, j') :: js, ?_, ?_, ?_, ?_⟩
    · rw [RawJson.membersToJson, hjson, hjsons]
      rfl
    · rw [sameMembers, beq_self_eq_true, hsame, hsames]
      rfl
    · rw [Value.ofJsonMembers, Value.ofJsonMembers, hvalue, hvalues]
    · rw [List.map_cons, List.map_cons, hnames]

theorem exists_members_of_denotedBy {texts : List String} {members : List (String × Json)}
    (h : List.Forall₂ MemberDenotedBy members texts) :
    ∃ raws : List (String × RawJson), List.Forall₂ MemberReads (texts.map String.toList) raws ∧
      List.Forall₂ (fun raw m => raw.1 = m.1 ∧ StandsFor raw.2 m.2) raws members := by
  induction h with
  | nil => exact ⟨[], .nil, .nil⟩
  | @cons member text _ _ h _ ih =>
    obtain ⟨value, rfl, raw, hreads, stands⟩ := h
    obtain ⟨raws, hreads', stands'⟩ := ih
    refine ⟨(member.1, raw) :: raws, .cons ⟨value.toList, ?_, hreads⟩ hreads',
      .cons ⟨rfl, stands⟩ stands'⟩
    rw [String.toList_append, String.toList_append, toList_quoted, List.append_assoc]
    rfl

theorem denotedBy_object {texts : List String} {members : List (String × Json)}
    (h : List.Forall₂ MemberDenotedBy members texts) (distinct : (members.map Prod.fst).Nodup) :
    (object members).DenotedBy (Emit.braced texts) := by
  obtain ⟨raws, hreads, stands⟩ := exists_members_of_denotedBy h
  refine ⟨.object raws, ?_, standsFor_object stands distinct⟩
  rw [toList_braced]
  exact reads_object hreads

end Json

end Typeforge
