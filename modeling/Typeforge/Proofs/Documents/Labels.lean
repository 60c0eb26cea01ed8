/-
# `Typeforge.Proofs.Documents.Labels` — documents of lines and their labels

A source may hold a document on each of its lines, and lines between them that are blank.
Two numbers tell where such a document stands: the number of its line among all lines, and
its number among the lines that are not blank.  Where a line cannot be read the first of
them is reported; the label of a document that is read has the second one.  They are the
same as long as no blank line has come before, and from the first blank line on they are
not.

However many documents a pointer and a filter make of what stands on a line, all of them
keep its label, and they come in the order of their lines.

`Document.labelled_by_rank` says all of this, for whatever language the filter is of: nothing is
asked of it, since a filter is given the part that the pointer selects and nothing else.  The
one hypothesis is that documents are taken from lines; a source that is one document has no
numbers.
-/
import Typeforge.Documents
import Typeforge.Json.Printer
import Typeforge.Proofs.Results

namespace Typeforge

/-! ## Numbers of lines -/

namespace Lines

variable {text : List Char} {k n : Nat} {line : List Char}

/-- The lines that are not blank, with their numbers among all lines. -/
def filled (text : List Char) : List (Nat × List Char) :=
  (numbered text).filter fun line => !isBlank line.2

/-- How many of the first lines, up to a number, are not blank. -/
def rank (text : List Char) (number : Nat) : Nat :=
  ((split text).take number).countP fun line => !isBlank line

theorem mem_filled : (n, line) ∈ filled text ↔
    ∃ i, n = i + 1 ∧ (split text)[i]? = some line ∧ isBlank line = false := by
  rw [filled, numbered, List.mem_filter, List.mem_mapIdx]
  constructor
  · rintro ⟨⟨i, hi, heq⟩, hfilled⟩
    obtain ⟨rfl, rfl⟩ := Prod.mk.inj heq
    exact ⟨i, rfl, List.getElem?_eq_getElem hi, Bool.not_eq_true' _ |>.mp hfilled⟩
  · rintro ⟨i, rfl, hline, hfilled⟩
    obtain ⟨hi, rfl⟩ := List.getElem?_eq_some_iff.mp hline
    exact ⟨⟨i, hi, rfl⟩, Bool.not_eq_true' _ |>.mpr hfilled⟩

/-- Where some items of a numbered list are dropped, the number of an item still tells how many are
kept up to it. -/
theorem countP_take_of_filter {α : Type} {p : α → Bool} {xs : List α} {start k n : Nat} {x : α}
    (h : ((xs.mapIdx fun i x => (start + i + 1, x)).filter fun e => p e.2)[k]? = some (n, x)) :
    ∃ i, n = start + i + 1 ∧ (xs.take (i + 1)).countP p = k + 1 := by
  induction xs generalizing start k with
  | nil => cases h
  | cons y ys ih =>
    have hshift : (ys.mapIdx fun i x => (start + (i + 1) + 1, x)) =
        ys.mapIdx fun i x => (start + 1 + i + 1, x) := by
      congr 1
      funext i x
      rw [Nat.add_comm i, ← Nat.add_assoc]
    rw [List.mapIdx_cons, hshift, List.filter_cons] at h
    cases hy : p y with
    | false =>
      rw [if_neg (by simp [hy])] at h
      obtain ⟨i, rfl, hcount⟩ := ih h
      refine ⟨i + 1, by omega, ?_⟩
      rw [List.take_succ_cons, List.countP_cons_of_neg (by simp [hy]), hcount]
    | true =>
      rw [if_pos (by simp [hy])] at h
      cases k with
      | zero =>
        obtain ⟨rfl, rfl⟩ := Prod.mk.inj (Option.some.inj h)
        exact ⟨0, rfl, by simp [hy]⟩
      | succ k =>
        obtain ⟨i, rfl, hcount⟩ := ih h
        refine ⟨i + 1, by omega, ?_⟩
        rw [List.take_succ_cons, List.countP_cons_of_pos hy, hcount]

/-- The number of a line among those that are not blank. -/
theorem rank_of_filled (h : (filled text)[k]? = some (n, line)) : rank text n = k + 1 := by
  have hnumbered : numbered text = (split text).mapIdx fun i line => (0 + i + 1, line) := by
    simp only [numbered, Nat.zero_add]
  rw [filled, hnumbered] at h
  obtain ⟨i, rfl, hcount⟩ := countP_take_of_filter (p := fun line => !isBlank line) h
  rw [rank, Nat.zero_add]
  exact hcount

theorem rank_getElem {i : Nat} (hi : i < (filled text).length) :
    rank text (filled text)[i].1 = i + 1 := by
  have hline : (filled text)[i]? = some ((filled text)[i].1, (filled text)[i].2) :=
    List.getElem?_eq_getElem hi
  exact rank_of_filled hline

theorem rank_le (text : List Char) (n : Nat) : rank text n ≤ n :=
  Nat.le_trans List.countP_le_length (List.length_take_le n _)

/-- The two numbers of a line are the same exactly when no line before it is blank. -/
theorem rank_eq_iff (h : (n, line) ∈ filled text) :
    rank text n = n ↔ ∀ before ∈ (split text).take n, isBlank before = false := by
  obtain ⟨i, rfl, hline, -⟩ := mem_filled.mp h
  have hi : i < (split text).length := (List.getElem?_eq_some_iff.mp hline).1
  have hlength : ((split text).take (i + 1)).length = i + 1 := List.length_take_of_le hi
  have hcount := List.countP_eq_length (p := fun line => !isBlank line) (l := (split text).take (i + 1))
  rw [hlength] at hcount
  rw [rank, hcount]
  simp only [Bool.not_eq_true']

end Lines

/-! ## What is made of a document -/

/-- The part of a value that a pointer selects; the value itself where there is no pointer. -/
def Json.selected? (pointer : Option String) (value : Json) : Option Json :=
  pointer.elim (some value) value.pointer?

/-- The values that a filter makes of one; that one where there is no filter. -/
def FilterLanguage.filtered (language : FilterLanguage) (query : Option String) (value : Json) :
    Except FilterFault (List Json) :=
  query.elim (.ok [value]) fun filter => language.run filter value

/-- Which values are made of one: those that the filter makes of the part that the pointer
selects. -/
def DocumentOptions.Makes (o : DocumentOptions) (language : FilterLanguage) (value : Json)
    (values : List Json) : Prop :=
  ∃ part, value.selected? o.pointer = some part ∧ language.filtered o.query part = .ok values

namespace Document

variable {language : FilterLanguage} {o : DocumentOptions} {path text : String} {d : Document}
  {ds : List Document}

theorem select_eq (pointer : Option String) (d : Document) : select pointer d =
    match d.value.selected? pointer with
    | some part => .ok ⟨d.source, part⟩
    | none => .error (.nothingSelected (pointer.getD "") d.source) := by
  cases pointer with
  | none => rfl
  | some pointer =>
    cases hpart : d.value.pointer? pointer <;>
      simp only [select, Json.selected?, Option.elim, hpart, Option.getD]

theorem applyQuery_eq (language : FilterLanguage) (query : Option String) (d : Document) :
    applyQuery language query d =
    match language.filtered query d.value with
    | .ok values => .ok (values.map (Document.mk d.source))
    | .error fault => .error (.badQuery d.source fault) := by
  cases query with
  | none => rfl
  | some filter =>
    cases hrun : language.run filter d.value <;>
      simp only [applyQuery, FilterLanguage.filtered, Option.elim, hrun]

/-- The documents that are made of one, with its label. -/
def take (language : FilterLanguage) (o : DocumentOptions) (d : Document) :
    Except DocumentFault (List Document) :=
  select o.pointer d >>= applyQuery language o.query

/-- Whatever is made of a document keeps its label. -/
theorem take_eq_ok : take language o d = .ok ds ↔
    ∃ values, o.Makes language d.value values ∧ ds = values.map (Document.mk d.source) := by
  unfold take DocumentOptions.Makes
  rw [select_eq]
  cases d.value.selected? o.pointer with
  | none => exact ⟨nofun, fun ⟨_, ⟨_, h, _⟩, _⟩ => nomatch h⟩
  | some part =>
    show applyQuery language o.query ⟨d.source, part⟩ = _ ↔ _
    rw [applyQuery_eq]
    dsimp only
    constructor
    · intro h
      cases hvalues : language.filtered o.query part with
      | error fault =>
        rw [hvalues] at h
        cases h
      | ok values =>
        rw [hvalues] at h
        exact ⟨values, ⟨part, rfl, hvalues⟩, (Except.ok.inj h).symm⟩
    · rintro ⟨values, ⟨_, ⟨⟩, hvalues⟩, rfl⟩
      rw [hvalues]

/-- Where nothing is made of a document, no line is reported for it. -/
theorem take_ne_unreadableLine {number : Nat} {fault : ReadFault} :
    take language o d ≠ .error (.unreadableLine path number fault) := by
  unfold take
  rw [select_eq]
  cases d.value.selected? o.pointer with
  | none => exact nofun
  | some part =>
    show applyQuery language o.query ⟨d.source, part⟩ ≠ _
    rw [applyQuery_eq]
    cases language.filtered o.query part <;> exact nofun

/-! ## Lines and their documents -/

/-- The documents that are made of a line that is not blank. -/
def MadeOfLine (language : FilterLanguage) (o : DocumentOptions) (path text : String)
    (line : Nat × List Char) (ds : List Document) : Prop :=
  ∃ value values, Json.parse (String.ofList line.2) = .ok value ∧ o.Makes language value values ∧
    ds = values.map (Document.mk (lineLabel path (Lines.rank text.toList line.1)))

theorem ofLine_eq_ok {number : Nat} {line : List Char} {value : Json} :
    ofLine path number line = .ok value ↔ Json.parse (String.ofList line) = .ok value := by
  rw [ofLine]
  cases Json.parse (String.ofList line) <;> simp

theorem ofLine_eq_error {number : Nat} {line : List Char} {fault : DocumentFault} :
    ofLine path number line = .error fault ↔ ∃ reason,
      Json.parse (String.ofList line) = .error reason ∧
        fault = .unreadableLine path number reason := by
  rw [ofLine]
  cases Json.parse (String.ofList line) <;> simp [eq_comm]

theorem ofLines_eq : ofLines path text =
    ((Lines.filled text.toList).mapM fun line => ofLine path line.1 line.2).map fun values =>
      values.mapIdx fun i value => ⟨lineLabel path (i + 1), value⟩ := by
  rw [ofLines]
  show (List.mapM _ (Lines.filled text.toList) >>= _) = _
  cases (Lines.filled text.toList).mapM fun line => ofLine path line.1 line.2 <;> rfl

theorem ofLines_eq_ok : ofLines path text = .ok ds ↔
    List.Forall₂ (fun line d => Json.parse (String.ofList line.2) = .ok d.value ∧
      d.source = lineLabel path (Lines.rank text.toList line.1)) (Lines.filled text.toList) ds := by
  rw [ofLines_eq, Except.map_eq_ok]
  simp only [Except.mapM_eq_ok, ofLine_eq_ok]
  constructor
  · rintro ⟨values, hvalues, rfl⟩
    obtain ⟨hlength, hvalues⟩ := List.forall₂_iff_get.mp hvalues
    refine List.forall₂_iff_get.mpr ⟨by rw [hlength, List.length_mapIdx], fun i hi hi' => ?_⟩
    simp only [List.get_eq_getElem, List.getElem_mapIdx] at hvalues ⊢
    exact ⟨hvalues i hi (hlength ▸ hi), by rw [Lines.rank_getElem hi]⟩
  · intro h
    obtain ⟨hlength, hds⟩ := List.forall₂_iff_get.mp h
    refine ⟨ds.map (·.value), ?_, List.ext_getElem (by simp) fun i hi hi' => ?_⟩
    · refine List.forall₂_map_right_iff.mpr (h.imp fun line d hd => hd.1)
    · have hline : i < (Lines.filled text.toList).length := hlength ▸ hi'
      have hlabel := (hds i hline hi').2
      simp only [List.get_eq_getElem, Lines.rank_getElem hline] at hlabel
      rw [List.getElem_mapIdx, List.getElem_map, ← hlabel]

theorem ofSource_eq (lines : o.lines = true) : ofSource language o path text =
    ofLines path text >>= fun documents => (documents.mapM (take language o)).map List.flatten := by
  rw [ofSource, if_pos lines]
  cases ofLines path text with
  | error fault => rfl
  | ok documents =>
    show (List.mapM (take language o) documents >>= _) =
      Except.map _ (List.mapM (take language o) documents)
    cases documents.mapM (take language o) <;> rfl

/-- The documents of a source are made of its lines that are not blank, in their order. -/
theorem ofSource_eq_ok (lines : o.lines = true) : ofSource language o path text = .ok ds ↔
    ∃ groups, List.Forall₂ (MadeOfLine language o path text) (Lines.filled text.toList) groups ∧
      ds = groups.flatten := by
  have hmade : MadeOfLine language o path text = fun line group => ∃ d : Document,
      (Json.parse (String.ofList line.2) = .ok d.value ∧
        d.source = lineLabel path (Lines.rank text.toList line.1)) ∧
      take language o d = .ok group := by
    funext line group
    simp only [take_eq_ok, eq_iff_iff]
    constructor
    · rintro ⟨value, values, hparse, hmakes, rfl⟩
      exact ⟨⟨_, value⟩, ⟨hparse, rfl⟩, values, hmakes, rfl⟩
    · rintro ⟨⟨source, value⟩, ⟨hparse, rfl⟩, values, hmakes, rfl⟩
      exact ⟨value, values, hparse, hmakes, rfl⟩
  simp only [ofSource_eq lines, Except.bind_eq_ok, Except.map_eq_ok, Except.mapM_eq_ok,
    ofLines_eq_ok, hmade, forall₂_exists_iff]
  constructor
  · rintro ⟨documents, hdocuments, groups, hgroups, rfl⟩
    exact ⟨groups, ⟨documents, hdocuments, hgroups⟩, rfl⟩
  · rintro ⟨groups, ⟨documents, hdocuments, hgroups⟩, rfl⟩
    exact ⟨documents, hdocuments, groups, hgroups, rfl⟩

/-- A line is reported exactly when lines cannot be read, whatever would be made of them. -/
theorem ofSource_eq_unreadable_iff (lines : o.lines = true) {number : Nat} {fault : ReadFault} :
    ofSource language o path text = .error (.unreadableLine path number fault) ↔
      (Lines.filled text.toList).mapM (fun line => ofLine path line.1 line.2) =
        .error (.unreadableLine path number fault) := by
  rw [ofSource_eq lines, ofLines_eq]
  cases (Lines.filled text.toList).mapM fun line => ofLine path line.1 line.2 with
  | error other =>
    show Except.error other = _ ↔ Except.error other = _
    simp only [Except.error.injEq]
  | ok values =>
    refine ⟨fun h => ?_, nofun⟩
    change Except.map List.flatten (List.mapM (take language o) _) = _ at h
    obtain ⟨before, d, after, -, -, hd⟩ := Except.mapM_eq_error.mp (Except.map_eq_error.mp h)
    exact absurd hd take_ne_unreadableLine

/-- A line is reported by its number among all lines, if it is the first that cannot be read. -/
theorem ofSource_eq_unreadableLine (lines : o.lines = true) {number : Nat} {fault : ReadFault} :
    ofSource language o path text = .error (.unreadableLine path number fault) ↔
      ∃ before line after, Lines.filled text.toList = before ++ (number, line) :: after ∧
        (∀ earlier ∈ before, (Json.parse (String.ofList earlier.2)).isOk = true) ∧
        Json.parse (String.ofList line) = .error fault := by
  rw [ofSource_eq_unreadable_iff lines, Except.mapM_eq_error]
  have read (line : Nat × List Char) : (ofLine path line.1 line.2).isOk =
      (Json.parse (String.ofList line.2)).isOk := by
    rw [ofLine]
    cases Json.parse (String.ofList line.2) <;> rfl
  simp only [ofLine_eq_error, read]
  constructor
  · rintro ⟨before, ⟨n, line⟩, after, hlines, hbefore, _, hparse, heq⟩
    obtain ⟨-, rfl, rfl⟩ := DocumentFault.unreadableLine.inj heq
    exact ⟨before, line, after, hlines, hbefore, hparse⟩
  · rintro ⟨before, line, after, hlines, hbefore, hparse⟩
    exact ⟨before, (number, line), after, hlines, hbefore, fault, hparse, rfl⟩

/-- **Documents of lines are labelled by their numbers among the lines that are not blank**, in
whatever language the filter may be. Every such line gives the documents that are made of it, all of
them under that number, and they come in the order of their lines. A line that cannot be read is reported by its number among all lines,
which is the larger one unless no line before it is blank. -/
theorem labelled_by_rank (language : FilterLanguage) (o : DocumentOptions) (lines : o.lines = true)
    (path text : String) :
    (∀ ds, ofSource language o path text = .ok ds ↔
      ∃ groups, List.Forall₂ (MadeOfLine language o path text) (Lines.filled text.toList) groups ∧
        ds = groups.flatten) ∧
    (∀ number fault, ofSource language o path text = .error (.unreadableLine path number fault) ↔
      ∃ before line after, Lines.filled text.toList = before ++ (number, line) :: after ∧
        (∀ earlier ∈ before, (Json.parse (String.ofList earlier.2)).isOk = true) ∧
        Json.parse (String.ofList line) = .error fault) ∧
    ∀ number line, (number, line) ∈ Lines.filled text.toList →
      Lines.rank text.toList number ≤ number ∧
      (Lines.rank text.toList number = number ↔
        ∀ before ∈ (Lines.split text.toList).take number, Lines.isBlank before = false) :=
  ⟨fun _ => ofSource_eq_ok lines, fun _ _ => ofSource_eq_unreadableLine lines,
    fun _ _ h => ⟨Lines.rank_le _ _, Lines.rank_eq_iff h⟩⟩

end Document

/-! ## Lines with gaps

Two lists, with two blank lines between them, of which a filter makes their items.
-/

namespace Gaps

def itemsOf : Json → List (Except String String)
  | .array items => items.map fun j => .ok j.text
  | _ => [.error "no list"]

/-- A language with one filter, for the items of a list. -/
def items : FilterLanguage where
  compile filter := if filter = ".[]" then .ok itemsOf else .error "no filter"

def options : DocumentOptions := { lines := true, query := some ".[]" }

def text : String := "[1]\n\n  \n[2,3]\n"

/-- The label of a document, and its text. -/
def shown (d : Document) : String × String := (d.source, d.value.text)

theorem computed : Lines.filled text.toList = [(1, "[1]".toList), (4, "[2,3]".toList)] ∧
    (Document.ofSource items options "list" text).toOption.any (fun ds =>
      ds.map shown == [("list:1", "1"), ("list:2", "2"), ("list:2", "3")]) = true := by
  decide +kernel

/-- What is made of the fourth line has the label of the second line that is not blank. -/
theorem made_in_order : ∃ first second,
    Document.MadeOfLine items options "list" text (1, "[1]".toList) first ∧
    Document.MadeOfLine items options "list" text (4, "[2,3]".toList) second ∧
    (first ++ second).map shown = [("list:1", "1"), ("list:2", "2"), ("list:2", "3")] := by
  obtain ⟨filled, shows⟩ := computed
  obtain ⟨ds, hds, hshown⟩ := Except.exists_of_any shows
  obtain ⟨made, -⟩ := Document.labelled_by_rank items options rfl "list" text
  obtain ⟨groups, hgroups, rfl⟩ := (made ds).mp hds
  rw [filled] at hgroups
  obtain ⟨first, rest, hfirst, hrest, rfl⟩ := List.forall₂_cons_left_iff.mp hgroups
  obtain ⟨second, last, hsecond, hlast, rfl⟩ := List.forall₂_cons_left_iff.mp hrest
  obtain rfl := List.forall₂_nil_left_iff.mp hlast
  refine ⟨first, second, hfirst, hsecond, ?_⟩
  rw [← eq_of_beq hshown, List.flatten_cons, List.flatten_cons, List.flatten_nil, List.append_nil]

end Gaps

/-! ## A blank line first -/

namespace LeadingBlank

theorem computed : Lines.filled "\n1".toList = [(2, "1".toList)] ∧
    (Document.ofSource Gaps.items { lines := true } "number" "\n1").toOption.any (fun ds =>
      ds.map (·.source) == ["number:1"]) = true ∧
    Document.lineLabel "number" 2 = "number:2" := by
  decide +kernel

/-- Documents are not labelled by the numbers of their lines among all lines, though no filter is
given. -/
theorem not_labelled_by_line : ¬ ∀ (language : FilterLanguage) (path text : String)
    (ds : List Document), Document.ofSource language { lines := true } path text = .ok ds →
    ds.map (·.source) =
      (Lines.filled text.toList).map fun line => Document.lineLabel path line.1 := by
  intro labelled
  obtain ⟨filled, sources, label⟩ := computed
  obtain ⟨ds, hds, hsources⟩ := Except.exists_of_any sources
  have hlabels := labelled Gaps.items "number" "\n1" ds hds
  rw [eq_of_beq hsources, filled, List.map_singleton, label] at hlabels
  exact absurd hlabels (by decide)

end LeadingBlank

end Typeforge
