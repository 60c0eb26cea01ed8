/-
# `Typeforge.Proofs.Serialization` — stringifying and encoding agree

There are two ways from a value to JSON text.  One encodes the value in place,
changes its parts as their types say, and makes a document of what comes of it.
The other walks along the value and writes.  The first follows the type and meets
the parts of an object in the order of their declaration; the second follows the
value, and meets members that no declaration knows.

For every value, of the type or not, both succeed or both fail, and the text
denotes the document.  There is one exception: an optional element of a tuple
that is undefined and whose type is a union is passed over by the encoder, but
the writer looks for a member of the union.

That is `Handle.stringify_denotes_encode`; `Arena.Orderly` leaves the exception out,
and requires that properties stand in objects and have different names there, as the
writer finds the type of a member by its name.  Functions are found by identities, which
have to be faithful, and both runs have to come to an end.  No object has a name twice
(`Value.hasNames`): values are such where programs run, but the type of values does not
say so.
-/
import Typeforge.Proofs.Documents.Plain
import Typeforge.Proofs.Sharing
import Typeforge.Proofs.Types.Orderly
import Typeforge.Proofs.Types.Slots
import Typeforge.Proofs.Types.Written

namespace Typeforge

/-! ## Slots -/

namespace Json

/-- What an object's member is written as, if it is not left out. -/
def MemberDenoted (j : Option Json) (text : Option String) : Prop := Option.Rel DenotedBy j text

/-- What an element is written as: one that is left out stands as null. -/
def ItemDenoted (j : Option Json) (text : Option String) : Prop :=
  (j.getD null).DenotedBy (text.getD "null")

theorem MemberDenoted.item {j : Option Json} {text : Option String} (h : MemberDenoted j text) :
    ItemDenoted j text := by
  cases h with
  | some h => exact h
  | none => exact denotedBy_null

end Json

/-- What comes of a value when it is changed, and what is written for it: both fail, or what is
written denotes what comes of it. Where all changes were made, every union had a member for its
value. -/
inductive Agree (R : Option Json → Option String → Prop) :
    Changed → Except Halt (Option String) → Prop where
  | written {v : Value} {j : Option Json} {text : Option String} (document : v.toJsonSlot = .ok j)
      (denotes : R j text) : Agree R (.done v) (.ok text)
  | refused {v : Value} {e : RunError} {halt : Halt} (document : v.toJsonSlot = .error e)
      (matched : halt.isUnmatched = false) : Agree R (.done v) (.error halt)
  | stopped {v : Value} {halt halt' : Halt} : Agree R ⟨v, some halt⟩ (.error halt')

/-- They agree if neither was cut off. -/
def Agrees (R : Option Json → Option String → Prop) (c : Changed)
    (written : Except Halt (Option String)) : Prop :=
  c.stop ≠ some .cutOff → written ≠ .error .cutOff → Agree R c written

section Slots

variable {R R' : Option Json → Option String → Prop} {c : Changed}
  {written : Except Halt (Option String)}

theorem Agree.imp (h : Agree R c written) (hR : ∀ j text, R j text → R' j text) :
    Agree R' c written := by
  cases h with
  | written document denotes => exact .written document (hR _ _ denotes)
  | refused document matched => exact .refused document matched
  | stopped => exact .stopped

theorem Agrees.imp (h : Agrees R c written) (hR : ∀ j text, R j text → R' j text) :
    Agrees R' c written :=
  fun hc hw => (h hc hw).imp hR

theorem Agrees.cutOff (h : c.stop = some .cutOff) : Agrees R c written := fun hc _ => absurd h hc

/-- What is written is not written for a change that stopped. -/
theorem Agrees.stop_eq_none (h : Agrees R c written) (hc : c.stop ≠ some .cutOff)
    {text : Option String} (ok : written = .ok text) : c.stop = none := by
  cases h hc (by rw [ok]; exact nofun) with
  | written => rfl
  | refused => cases ok
  | stopped => cases ok

/-- What is written for a change that was made to its end. -/
theorem Agrees.cases_done (h : Agrees R c written) (done : c.stop = none)
    (ends : written ≠ .error .cutOff) :
    (∃ j text, c.value.toJsonSlot = .ok j ∧ written = .ok text ∧ R j text) ∨
      ∃ e halt, c.value.toJsonSlot = .error e ∧ written = .error halt ∧
        halt.isUnmatched = false := by
  cases h (by rw [done]; exact nofun) ends with
  | written document denotes => exact .inl ⟨_, _, document, rfl, denotes⟩
  | refused document matched => exact .inr ⟨_, _, document, rfl, matched⟩
  | stopped => cases done

/-- A value without a type. -/
theorem agree_plain {v : Value} (h : v.hasNames = true) :
    Agree Json.MemberDenoted (.done v) v.plainText := by
  unfold Value.plainText
  rcases v.plain h with ⟨document, stays, written, denotes⟩ | ⟨document, omitted, -⟩ |
    ⟨document, stays, written⟩
  · rw [stays, if_neg Bool.false_ne_true, written]
    exact .written document (.some denotes)
  · rw [omitted, if_pos rfl]
    exact .written document .none
  · rw [stays, if_neg Bool.false_ne_true, Written.finish, Written.toExcept, written]
    exact .refused document rfl

end Slots

/-! ## Objects -/

section Objects

variable {g : String → Value → Changed} {write : String → Value → Except Halt (Option String)}
  {members : List (String × Value)}

theorem exists_of_writeMembers {texts : List String} (h : Emit.writeMembers write members = .ok texts) :
    ∀ m ∈ members, ∃ text, write m.1 m.2 = .ok text := by
  induction members generalizing texts with
  | nil => exact fun _ hm => absurd hm List.not_mem_nil
  | cons m rest ih =>
    obtain ⟨k, v⟩ := m
    rw [Emit.writeMembers] at h
    obtain ⟨text, hwrite, h⟩ := Except.bind_eq_ok.mp h
    obtain ⟨others, hothers, -⟩ := Except.bind_eq_ok.mp h
    exact List.forall_mem_cons.mpr ⟨⟨text, hwrite⟩, ih hothers⟩

/-- The members of an object, each of which is changed to its end. -/
theorem writeMembers_cases (done : ∀ m ∈ members, (g m.1 m.2).stop = none)
    (agrees : ∀ m ∈ members, Agrees Json.MemberDenoted (g m.1 m.2) (write m.1 m.2))
    (ends : Emit.writeMembers write members ≠ .error .cutOff) :
    (∃ js texts, Value.toJsonMembers (members.map fun m => (m.1, (g m.1 m.2).value)) = .ok js ∧
      Emit.writeMembers write members = .ok texts ∧ List.Forall₂ Json.MemberDenotedBy js texts ∧
      (js.map Prod.fst).Sublist (members.map Prod.fst)) ∨
    ∃ e halt, Value.toJsonMembers (members.map fun m => (m.1, (g m.1 m.2).value)) = .error e ∧
      Emit.writeMembers write members = .error halt ∧ halt.isUnmatched = false := by
  induction members with
  | nil => exact .inl ⟨[], [], rfl, rfl, .nil, .slnil⟩
  | cons m rest ih =>
    obtain ⟨k, v⟩ := m
    obtain ⟨hdone, hdones⟩ := List.forall_mem_cons.mp done
    obtain ⟨hagrees, hagree⟩ := List.forall_mem_cons.mp agrees
    dsimp only at hdone hagrees
    rw [Emit.writeMembers] at ends ⊢
    rw [List.map_cons, Value.toJsonMembers]
    have hwrite : write k v ≠ .error .cutOff := fun h => by
      rw [h] at ends
      exact ends rfl
    rcases hagrees.cases_done hdone hwrite with ⟨j, text, hj, htext, hdenotes⟩ |
      ⟨e, halt, he, hhalt, matched⟩
    · rw [htext] at ends ⊢
      rw [hj]
      have hrest : Emit.writeMembers write rest ≠ .error .cutOff := fun h => by
        rw [h] at ends
        exact ends rfl
      rcases ih hdones hagree hrest with ⟨js, texts, hjs, htexts, hdenote, hnames⟩ |
        ⟨e, halt, he, hhalt, matched⟩
      · rw [hjs, htexts]
        cases hdenotes with
        | some h => exact .inl ⟨_, _, rfl, rfl, .cons ⟨_, rfl, h⟩ hdenote, hnames.cons_cons k⟩
        | none => exact .inl ⟨_, _, rfl, rfl, hdenote, hnames.cons k⟩
      · rw [he, hhalt]
        exact .inr ⟨_, _, rfl, rfl, matched⟩
    · rw [he, hhalt]
      exact .inr ⟨_, _, rfl, rfl, matched⟩

/-- An object is changed member by member, and written so. -/
theorem agrees_object {step : Value → Changed}
    (handles : Whole.members.Handles (fun _ => true) g step)
    (distinct : (members.map Prod.fst).Nodup)
    (agrees : ∀ m ∈ members, Agrees Json.MemberDenoted (g m.1 m.2) (write m.1 m.2)) :
    Agrees Json.MemberDenoted (step (.object members))
      (((Emit.writeMembers write members).map Emit.braced).map some) := by
  intro hstep hwrite
  have ends : Emit.writeMembers write members ≠ .error .cutOff := fun h => by
    rw [h] at hwrite
    exact hwrite rfl
  rcases handles members distinct with hcut | ⟨m, hm, -, halt, hg, hstop⟩ | ⟨hdone, heq⟩
  · exact absurd hcut hstep
  · -- a member whose change stops is not written either
    have hrefused : ∃ halt', Emit.writeMembers write members = .error halt' := by
      cases htexts : Emit.writeMembers write members with
      | error halt' => exact ⟨halt', rfl⟩
      | ok texts =>
        obtain ⟨text, htext⟩ := exists_of_writeMembers htexts m hm
        have hnone := (agrees m hm).stop_eq_none (by rw [hg, ← hstop]; exact hstep) htext
        rw [hg] at hnone
        cases hnone
    obtain ⟨halt', hhalt⟩ := hrefused
    rw [hhalt, show step (.object members) = ⟨_, some halt⟩ from congrArg (Changed.mk _) hstop]
    exact .stopped
  · have hvalue : step (.object members) =
        .done (.object (members.map fun m => (m.1, (g m.1 m.2).value))) := heq
    rw [hvalue]
    rcases writeMembers_cases (fun m hm => hdone m hm rfl) agrees ends with
      ⟨js, texts, hjs, htexts, hdenote, hnames⟩ | ⟨e, halt, he, hhalt, matched⟩
    · rw [htexts]
      exact .written (by rw [Value.toJsonSlot, hjs]; rfl)
        (.some (Json.denotedBy_object hdenote (hnames.nodup distinct)))
    · rw [hhalt]
      exact .refused (by rw [Value.toJsonSlot, he]; rfl) matched

end Objects

/-! ## Arrays -/

section Arrays

variable {g : Nat → Value → Changed} {write : Nat → Value → Except Halt (Option String)}
  {items : List Value}

theorem exists_of_writeItems {texts : List String} {i : Nat}
    (h : Emit.writeItems write i items = .ok texts) :
    ∀ j v, items[j]? = some v → ∃ text, write (i + j) v = .ok text := by
  induction items generalizing i texts with
  | nil => exact fun _ _ hj => nomatch hj
  | cons v rest ih =>
    rw [Emit.writeItems] at h
    obtain ⟨text, hwrite, h⟩ := Except.bind_eq_ok.mp h
    obtain ⟨others, hothers, -⟩ := Except.bind_eq_ok.mp h
    intro j w hj
    cases j with
    | zero =>
      cases hj
      exact ⟨text, hwrite⟩
    | succ j =>
      rw [← Nat.succ_add_eq_add_succ]
      exact ih hothers j w hj

/-- The elements of an array, counted from `i`, each of which is changed to its end. -/
theorem writeItems_cases {i : Nat} (done : ∀ j v, items[j]? = some v → (g (i + j) v).stop = none)
    (agrees : ∀ j v, items[j]? = some v → Agrees Json.ItemDenoted (g (i + j) v) (write (i + j) v))
    (ends : Emit.writeItems write i items ≠ .error .cutOff) :
    (∃ js texts, Value.toJsonItems (items.mapIdx fun j v => (g (i + j) v).value) = .ok js ∧
      Emit.writeItems write i items = .ok texts ∧ List.Forall₂ Json.DenotedBy js texts) ∨
    ∃ e halt, Value.toJsonItems (items.mapIdx fun j v => (g (i + j) v).value) = .error e ∧
      Emit.writeItems write i items = .error halt ∧ halt.isUnmatched = false := by
  induction items generalizing i with
  | nil => exact .inl ⟨[], [], rfl, rfl, .nil⟩
  | cons v rest ih =>
    rw [Emit.writeItems] at ends ⊢
    rw [List.mapIdx_cons, Value.toJsonItems]
    have hwrite : write i v ≠ .error .cutOff := fun h => by
      rw [h] at ends
      exact ends rfl
    have later (j : Nat) : i + 1 + j = i + (j + 1) := Nat.succ_add_eq_add_succ i j
    rcases (agrees 0 v rfl).cases_done (done 0 v rfl) hwrite with
      ⟨j, text, hj, htext, hdenotes⟩ | ⟨e, halt, he, hhalt, matched⟩
    · rw [Nat.add_zero] at hj htext
      rw [htext] at ends ⊢
      rw [Nat.add_zero, hj]
      have hrest : Emit.writeItems write (i + 1) rest ≠ .error .cutOff := fun h => by
        rw [h] at ends
        exact ends rfl
      have hothers := ih (i := i + 1)
        (fun j v hj => by rw [later]; exact done (j + 1) v hj)
        (fun j v hj => by rw [later]; exact agrees (j + 1) v hj) hrest
      simp only [later] at hothers
      rcases hothers with ⟨js, texts, hjs, htexts, hdenote⟩ | ⟨e, halt, he, hhalt, matched⟩
      · rw [hjs, htexts]
        exact .inl ⟨_, _, rfl, rfl, .cons hdenotes hdenote⟩
      · rw [he, hhalt]
        exact .inr ⟨_, _, rfl, rfl, matched⟩
    · rw [Nat.add_zero] at he hhalt
      rw [Nat.add_zero, he, hhalt]
      exact .inr ⟨_, _, rfl, rfl, matched⟩

/-- An array is changed element by element, and written so. -/
theorem agrees_array {step : Value → Changed}
    (handles : Whole.elements.Handles (fun _ => true) g step)
    (agrees : ∀ i v, items[i]? = some v → Agrees Json.ItemDenoted (g i v) (write i v)) :
    Agrees Json.MemberDenoted (step (.array items))
      (((Emit.writeItems write 0 items).map Emit.bracketed).map some) := by
  intro hstep hwrite
  have ends : Emit.writeItems write 0 items ≠ .error .cutOff := fun h => by
    rw [h] at hwrite
    exact hwrite rfl
  have hhandles := handles (Whole.numbered items) (Whole.fits_numbered items)
  rw [Whole.Outcome, Whole.make_numbered] at hhandles
  rcases hhandles with hcut | ⟨part, hpart, -, halt, hg, hstop⟩ | ⟨hdone, heq⟩
  · exact absurd hcut hstep
  · have hitem := Whole.mem_numbered.mp hpart
    have hrefused : ∃ halt', Emit.writeItems write 0 items = .error halt' := by
      cases htexts : Emit.writeItems write 0 items with
      | error halt' => exact ⟨halt', rfl⟩
      | ok texts =>
        obtain ⟨text, htext⟩ := exists_of_writeItems htexts _ _ hitem
        rw [Nat.zero_add] at htext
        have hnone := (agrees _ _ hitem).stop_eq_none (by rw [hg, ← hstop]; exact hstep) htext
        rw [hg] at hnone
        cases hnone
    obtain ⟨halt', hhalt⟩ := hrefused
    rw [hhalt, show step (.array items) = ⟨_, some halt⟩ from congrArg (Changed.mk _) hstop]
    exact .stopped
  · have hvalue : step (.array items) = .done (.array (items.mapIdx fun i v => (g i v).value)) := by
      rw [heq, ← Whole.make_map_numbered]
      rfl
    rw [hvalue]
    have hcases := writeItems_cases (g := g) (i := 0)
      (fun j v hj => by
        rw [Nat.zero_add]
        exact hdone (j, v) (Whole.mem_numbered.mpr hj) rfl)
      (fun j v hj => by rw [Nat.zero_add]; exact agrees j v hj) ends
    simp only [Nat.zero_add] at hcases
    rcases hcases with ⟨js, texts, hjs, htexts, hdenote⟩ | ⟨e, halt, he, hhalt, matched⟩
    · rw [htexts]
      exact .written (by rw [Value.toJsonSlot, hjs]; rfl) (.some (Json.denotedBy_array hdenote))
    · rw [hhalt]
      exact .refused (by rw [Value.toJsonSlot, he]; rfl) matched

end Arrays

/-! ## Types -/

namespace Arena

open TypeTree

variable {a : Arena} {revivers : Revivers}

/-- A value that is tagged as a member of a union. -/
theorem agrees_tagged {c : Changed} {written : Except Halt (Option String)} {i : Nat}
    (h : Agrees Json.MemberDenoted c written) (hi : i < Nat.pow 2 64) :
    Agrees Json.MemberDenoted (c.andThen fun v => .done (.array [.ofNat i, v]))
      ((written.map fun text => Emit.bracketed [integerText i, text.getD "null"]).map some) := by
  intro hc hw
  have hc' : c.stop ≠ some .cutOff := fun hcut => by
    rw [Changed.andThen, hcut] at hc
    exact hc hcut
  have hw' : written ≠ .error .cutOff := fun hcut => by
    rw [hcut] at hw
    exact hw rfl
  cases h hc' hw' with
  | @written v j text document denotes =>
    have hitems : List.Forall₂ Json.DenotedBy [numberToJson (Float.ofNat i), j.getD .null]
        [integerText i, text.getD "null"] :=
      .cons (Json.denotedBy_natural hi) (.cons denotes.item .nil)
    refine .written ?_ (.some (Json.denotedBy_array hitems))
    change Value.toJsonSlot (.array [.ofNat i, v]) = _
    rw [Value.toJsonSlot, Value.toJsonItems, Value.toJsonItems, document]
    rfl
  | @refused v e halt document matched =>
    refine .refused (e := e) ?_ matched
    change Value.toJsonSlot (.array [.ofNat i, v]) = _
    rw [Value.toJsonSlot, Value.toJsonItems, Value.toJsonItems, document]
    rfl
  | stopped => exact .stopped

/-- What is written for a value is what is written for it as a member of a union. -/
theorem agrees_first {f : TypeTree → Value → Changed} {skips : TypeTree → Value → Bool}
    {text : TypeTree → Value → Except Halt String} {v : Value} {trees : List TypeTree}
    (h : ∀ u ∈ trees, Agrees Json.MemberDenoted (f u v) (TypeTree.placed skips text u v)) {i : Nat}
    (counted : i + trees.length ≤ Nat.pow 2 64) :
    Agrees Json.MemberDenoted (tagFirst f v i trees) ((firstText skips text v i trees).map some) := by
  induction trees generalizing i with
  | nil => exact fun _ _ => .stopped
  | cons u rest ih =>
    obtain ⟨hu, hrest⟩ := List.forall_mem_cons.mp h
    rw [tagFirst, firstText]
    by_cases hjudges : Judges u v true
    · rw [if_pos hjudges, if_pos hjudges]
      exact agrees_tagged hu (by rw [List.length_cons] at counted; omega)
    · rw [if_neg hjudges, if_neg hjudges]
      exact ih hrest (by rw [List.length_cons] at counted; omega)

/-! ## Types -/

variable {n : Nat} {id : NodeId} {v : Value}

theorem placed_of_not_needs {t : TypeTree} (h : ¬ t.Needs .encode) (n : Nat) (v : Value) :
    TypeTree.placed (leavesOut (n + 1)) (written (n + 1)) t v = v.plainText := by
  rw [TypeTree.placed, leavesOut_of_not_needs h, written_of_not_needs h]
  rfl

theorem placed_of_needs {t : TypeTree} (h : t.Needs .encode) (n : Nat) (v : Value) :
    TypeTree.placed (leavesOut (n + 1)) (written (n + 1)) t v =
      if v.isOmitted && drops (leavesOut n) t v then .ok none
      else (content (leavesOut n) (written n) t v).map some := by
  rw [TypeTree.placed, leavesOut_of_needs h, written_of_needs h]

theorem isOmitted_and_leavesOut (n : Nat) (t : TypeTree) (v : Value) :
    (v.isOmitted && leavesOut n t v) = leavesOut n t v := by
  cases homitted : v.isOmitted with
  | true => exact Bool.true_and _
  | false => rw [leavesOut_of_not_omitted homitted, Bool.and_false]

/-- What is written for a value denotes what it is encoded to, the type of a node followed down to
a depth. -/
def TextAgrees (a : Arena) (revivers : Revivers) (n : Nat) (id : NodeId) (v : Value) : Prop :=
  Agrees Json.MemberDenoted (alter .encode revivers n (a.unfolding id) v)
    (TypeTree.placed (leavesOut n) (written n) (a.unfolding id) v)

/-- The same of a type that needs code. -/
def StepsAgree (a : Arena) (revivers : Revivers) (n : Nat) (id : NodeId) (v : Value) : Prop :=
  Agrees Json.MemberDenoted
    (Changed.inTurn ((a.unfolding id).steps .encode revivers (alter .encode revivers n)) v)
    (if v.isOmitted && drops (leavesOut n) (a.unfolding id) v then .ok none
      else (content (leavesOut n) (written n) (a.unfolding id) v).map some)

/-- Steps that have nothing to change. -/
theorem agrees_idle {steps : List (Value → Changed)}
    (idle : ∀ step ∈ steps, (step v).stop = some .cutOff ∨ step v = .done v)
    (names : v.hasNames = true) :
    Agrees Json.MemberDenoted (Changed.inTurn steps v) v.plainText := by
  induction steps with
  | nil => exact fun _ _ => agree_plain names
  | cons step steps ih =>
    obtain ⟨hstep, hsteps⟩ := List.forall_mem_cons.mp idle
    rw [Changed.inTurn]
    rcases hstep with hcut | hdone
    · refine .cutOff ?_
      rw [Changed.andThen, hcut]
      exact hcut
    · rw [hdone]
      exact ih hsteps

/-- The member of a property. -/
theorem agrees_property {name : String} {child : NodeId}
    (h : (a.node id).shape = .property name child) (names : v.hasNames = true)
    (ih : ∀ m < n, a.TextAgrees revivers m child v) :
    Agrees Json.MemberDenoted (TypeTree.alterMember .encode revivers n (a.unfolding id) v)
      (if (a.node id).optional && v.isUndefined then .ok none
        else TypeTree.placed (leavesOut n) (written n) (a.unfolding id) v) := by
  obtain ⟨hlabel, hpart⟩ := label_of_property h
  have hoptional : (a.unfolding id).isOptional = (a.node id).optional := by
    rw [isOptional, hlabel]
  cases n with
  | zero => exact .cutOff rfl
  | succ n =>
    rw [TypeTree.alterMember, hoptional, hpart]
    cases habsent : (a.node id).optional && v.isUndefined with
    | true =>
      rw [if_neg (fun hn => Bool.noConfusion hn.2), if_pos rfl]
      obtain ⟨-, hundefined⟩ := Bool.and_eq_true_iff.mp habsent
      cases v <;> cases hundefined
      exact fun _ _ => .written rfl .none
    | false =>
      rw [if_neg Bool.false_ne_true]
      by_cases hneeds : (a.unfolding id).Needs .encode
      · rw [if_pos ⟨hneeds, rfl⟩, placed_of_needs hneeds]
        have hself : (a.node id).standsFor? = none := by simp only [Node.standsFor?, h]
        rw [drops_eq hself, h, content_property h]
        dsimp only
        rw [isOmitted_and_leavesOut]
        exact ih n (Nat.lt_succ_self n)
      · rw [if_neg (fun hn => hneeds hn.1), placed_of_not_needs hneeds]
        exact fun _ _ => agree_plain names

/-- What is no object has no member to change. -/
theorem idle_property {t : TypeTree} {name : String} {optional : Bool}
    (h : t.label = some (.property name optional)) (hv : ∀ members, v ≠ .object members) :
    (alter .encode revivers n t v).stop = some .cutOff ∨ alter .encode revivers n t v = .done v := by
  cases n with
  | zero => exact .inl rfl
  | succ n =>
    refine .inr ?_
    by_cases hneeds : t.Needs .encode
    · rw [alter_of_needs hneeds]
      simp only [steps, h, Changed.inTurn_singleton, Value.changePresent]
      cases v with
      | object members => exact absurd rfl (hv members)
      | _ => rfl
    · exact alter_of_not_needs hneeds n v

/-- A value that a codec carries. -/
theorem agrees_atom {x : Atom} (h : (a.node id).shape = .atom x) (names : v.hasNames = true) :
    a.StepsAgree revivers n id v := by
  have hself : (a.node id).standsFor? = none := by simp only [Node.standsFor?, h]
  unfold StepsAgree
  cases hnever : x.isNever with
  | true =>
    refine .cutOff ?_
    simp only [steps, label_unfolding hself, labelOf, h, x.isNever_canonical, hnever, if_true]
    rfl
  | false =>
    rw [steps_atom h hnever, content_atom h hnever, drops_eq hself, h]
    obtain ⟨carried, hcarried⟩ : ∃ carried, x.codec? = carried := ⟨_, rfl⟩
    simp only [hcarried]
    cases carried with
    | none =>
      simp only [Bool.and_true]
      exact fun _ _ => agree_plain names
    | some codec =>
      have homitted : (v.isOmitted && !codec.keeps v) = (codec.encode v).isOmitted := by
        cases codec <;> cases v <;> rfl
      have hnames : (codec.encode v).hasNames = true := by
        cases codec <;> cases v <;> exact names
      simp only [homitted]
      exact fun _ _ => agree_plain hnames

/-- An array, or what stands in its place. -/
theorem agrees_elements {item : NodeId} (h : (a.node id).shape = .array item)
    (names : v.hasNames = true)
    (ih : ∀ w, w.hasNames = true → a.TextAgrees revivers n item w) :
    a.StepsAgree revivers n id v := by
  have hself : (a.node id).standsFor? = none := by simp only [Node.standsFor?, h]
  unfold StepsAgree
  rw [steps_array h, content_array h, drops_eq hself, h]
  dsimp only
  rw [Bool.and_true]
  cases v with
  | array items =>
    rw [Changed.inTurn_singleton]
    have handles := (Whole.Handles.elementsFrom (s := 0)
      (g := fun _ => alter .encode revivers n (a.unfolding item))
      (f := alter .encode revivers n (a.unfolding item)) fun _ _ _ => rfl).all
      fun i _ hi => absurd (Nat.zero_le i) (of_decide_eq_false hi)
    refine agrees_array handles fun i w hw => (ih w ?_).imp fun _ _ => Json.MemberDenoted.item
    exact Value.hasNames_of_mem_items names (List.mem_of_getElem? hw)
  | _ => exact agrees_idle (List.forall_mem_singleton.mpr (.inr rfl)) names

/-- An optional element of a tuple that is undefined. -/
theorem agrees_absent (orderly : a.Orderly) {pos : NodeId} (property : a.propertyName? pos = none)
    (untagged : ∀ members, (a.unfolding pos).label = some (.union members) →
      ¬ (a.unfolding pos).Needs .encode) (n : Nat) :
    Agrees Json.ItemDenoted (.done .undefined)
      (TypeTree.placed (leavesOut n) (written n) (a.unfolding pos) .undefined) := by
  have absent : Agree Json.ItemDenoted (.done .undefined) (.ok none) :=
    .written rfl Json.denotedBy_null
  cases n with
  | zero => exact fun _ _ => absent
  | succ n =>
    by_cases hneeds : (a.unfolding pos).Needs .encode
    · cases hcore : a.core pos with
      | none => exact absurd (unfolding_eq_empty hcore) hneeds.ne_empty
      | some core =>
        have hself := standsFor_of_core hcore
        have hproperty := orderly.propertyName?_core property hcore
        rw [unfolding_core hcore] at hneeds untagged ⊢
        rw [placed_of_needs hneeds, drops_eq hself]
        cases hshape : (a.node core).shape with
        | atom x =>
          obtain ⟨carried, hcarried⟩ : ∃ carried, x.codec? = carried := ⟨_, rfl⟩
          simp only [hcarried]
          rcases carried with _ | _ | _ | _ | _ | _
          case some.undefined =>
            have hnever : x.isNever = false := by
              cases x <;> first | rfl | cases hcarried
            rw [content_atom hshape hnever, hcarried]
            exact fun _ _ => .written rfl Json.denotedBy_null
          all_goals exact fun _ _ => absent
        | union members =>
          refine absurd hneeds (untagged members.length ?_)
          rw [label_unfolding hself, labelOf, hshape]
        | property name child =>
          rw [propertyName?, hshape] at hproperty
          cases hproperty
        | _ => exact fun _ _ => absent
    · rw [placed_of_not_needs hneeds]
      exact fun _ _ => absent

/-- A tuple, or what stands in its place. -/
theorem agrees_tuple (orderly : a.Orderly) {tuple : List NodeId}
    (h : (a.node id).shape = .tuple tuple) (names : v.hasNames = true)
    (property : ∀ pos ∈ tuple, a.propertyName? pos = none)
    (ih : ∀ pos ∈ tuple, ∀ w, w.hasNames = true → a.TextAgrees revivers n pos w) :
    a.StepsAgree revivers n id v := by
  have hself : (a.node id).standsFor? = none := by simp only [Node.standsFor?, h]
  have hsplit := splitTuple_append (a := a) tuple
  unfold StepsAgree
  rw [steps_tuple h, content_tuple h, drops_eq hself, h]
  dsimp only
  rw [Bool.and_true]
  cases v with
  | array items =>
    refine agrees_array (handles_elementSteps tuple) fun i w hw => ?_
    have hnames := Value.hasNames_of_mem_items names (List.mem_of_getElem? hw)
    unfold alterElement TypeTree.elementText
    rw [List.getElem?_map]
    cases hpos : (a.splitTuple tuple).1[i]? with
    | some pos =>
      have hfixed := List.mem_of_getElem? hpos
      have hmem : pos ∈ tuple := by
        rw [← hsplit]
        exact List.mem_append_left _ hfixed
      simp only [Option.map_some]
      cases habsent : (a.node pos).optional && w.isUndefined with
      | true =>
        obtain ⟨hoptional, hundefined⟩ := Bool.and_eq_true_iff.mp habsent
        cases w <;> cases hundefined
        rw [if_pos rfl]
        exact agrees_absent orderly (property pos hmem)
          (orderly.slots id tuple h pos hfixed hoptional) n
      | false =>
        rw [if_neg Bool.false_ne_true]
        exact (ih pos hmem w hnames).imp fun _ _ => Json.MemberDenoted.item
    | none =>
      cases hrest : (a.splitTuple tuple).2 with
      | some last =>
        have hmem : last ∈ tuple := by
          rw [← hsplit, hrest]
          exact List.mem_append_right _ List.mem_cons_self
        exact (ih last hmem w hnames).imp fun _ _ => Json.MemberDenoted.item
      | none => exact fun _ _ => (agree_plain hnames).imp fun _ _ => Json.MemberDenoted.item
  | _ =>
    refine agrees_idle (fun step hstep => .inr ?_) names
    rcases List.mem_append.mp hstep with hstep | hstep
    · obtain ⟨x, -, hstep⟩ := List.mem_flatMap.mp hstep
      obtain rfl := List.mem_singleton.mp hstep
      rfl
    · split at hstep
      · obtain rfl := List.mem_singleton.mp hstep
        rfl
      · cases hstep

/-- An object, or what stands in its place. -/
theorem agrees_members (orderly : a.Orderly) {props : List NodeId} {index : Option NodeId}
    {className : Option String} (h : (a.node id).shape = .object props index className)
    (names : v.hasNames = true)
    (ih : ∀ m ≤ n, ∀ id v, a.propertyName? id = none → v.hasNames = true →
      a.TextAgrees revivers m id v) :
    a.StepsAgree revivers n id v := by
  have hself : (a.node id).standsFor? = none := by simp only [Node.standsFor?, h]
  unfold StepsAgree
  rw [steps_object h, content_object h, drops_eq hself, h]
  dsimp only
  rw [Bool.and_true, show Way.revive revivers .encode className = [] from rfl, List.append_nil]
  cases v with
  | object members =>
    obtain ⟨hdistinct, hnames⟩ := Bool.and_eq_true_iff.mp names
    refine agrees_object (handles_memberSteps (orderly.distinct id props index className h))
      (of_decide_eq_true hdistinct) fun m hm => ?_
    have hnames := Value.hasNames_of_mem_members hnames hm
    obtain ⟨k, w⟩ := m
    dsimp only at hnames ⊢
    unfold alterMember TypeTree.memberText
    rw [List.find?_map]
    simp only [Function.comp_def]
    cases hfound : (a.properties props).find? (·.name = k) with
    | some p =>
      obtain ⟨hmem, hoptional, child, hshape⟩ :=
        shape_of_mem_properties (List.mem_of_find?_eq_some hfound)
      simp only [Option.map_some, hoptional]
      exact agrees_property hshape hnames fun m hm =>
        ih m (Nat.le_of_lt hm) child w (orderly.propertyName?_child hshape) hnames
    | none =>
      cases hindex : a.indexFilter index with
      | none => exact fun _ _ => agree_plain hnames
      | some x =>
        obtain ⟨id, filter⟩ := x
        simp only [Option.map_none, Option.map_some]
        cases filter.accepts k with
        | true =>
          rw [if_pos rfl, if_pos rfl]
          refine ih n le_rfl id w ?_ hnames
          obtain ⟨child, hshape⟩ := shape_of_indexFilter hindex
          rw [propertyName?, hshape]
        | false =>
          rw [if_neg Bool.false_ne_true, if_neg Bool.false_ne_true]
          exact fun _ _ => agree_plain hnames
  | _ =>
    refine agrees_idle (fun step hstep => ?_) names
    rcases List.mem_append.mp hstep with hstep | hstep
    · obtain ⟨p, hp, rfl⟩ := List.mem_map.mp hstep
      obtain ⟨-, -, child, hshape⟩ := shape_of_mem_properties hp
      exact idle_property (label_of_property hshape).1 (by rintro _ ⟨⟩)
    · split at hstep
      · obtain rfl := List.mem_singleton.mp hstep
        exact .inr rfl
      · cases hstep

/-- A node with code of its own. -/
theorem stepsAgree (orderly : a.Orderly) (hself : (a.node id).standsFor? = none)
    (property : a.propertyName? id = none) (names : v.hasNames = true)
    (ih : ∀ m ≤ n, ∀ id v, a.propertyName? id = none → v.hasNames = true →
      a.TextAgrees revivers m id v) :
    a.StepsAgree revivers n id v := by
  cases hshape : (a.node id).shape with
  | atom x => exact agrees_atom hshape names
  | array item =>
    have hitem : a.propertyName? item = none :=
      orderly.propertyName?_part hshape List.mem_cons_self (by rintro _ _ _ ⟨⟩)
    exact agrees_elements hshape names fun w => ih n le_rfl item w hitem
  | property name child =>
    rw [propertyName?, hshape] at property
    cases property
  | tupleMember child | indexSignature filter child | rest child | parameter name child rest =>
    simp only [Node.standsFor?, hshape, reduceCtorEq] at hself
  | promise child | function f =>
    refine .cutOff ?_
    simp only [steps, label_unfolding hself, labelOf, hshape]
    rfl
  | object props index className => exact agrees_members orderly hshape names ih
  | tuple tuple =>
    have hproperty (pos : NodeId) (hpos : pos ∈ tuple) : a.propertyName? pos = none :=
      orderly.propertyName?_part hshape hpos (by rintro _ _ _ ⟨⟩)
    exact agrees_tuple orderly hshape names hproperty
      fun pos hpos w => ih n le_rfl pos w (hproperty pos hpos)
  | union members =>
    unfold StepsAgree
    rw [steps_union hshape, content_union hshape, drops_eq hself, hshape]
    dsimp only
    rw [Bool.and_false, if_neg Bool.false_ne_true, Changed.inTurn_singleton]
    refine agrees_first (List.forall_mem_map.mpr fun member hmember => ?_) ?_
    · have hproperty := orderly.propertyName?_part hshape hmember (by rintro _ _ _ ⟨⟩)
      exact ih n le_rfl member v hproperty names
    · rw [List.length_map, Nat.zero_add]
      exact orderly.counted id members hshape

/-- **What is written for a value denotes what it is encoded to**, at every depth of the walk. -/
theorem textAgrees (orderly : a.Orderly) (n : Nat) : ∀ id v, a.propertyName? id = none →
    v.hasNames = true → a.TextAgrees revivers n id v := by
  induction n using Nat.strongRecOn with
  | ind n ih =>
    intro id v property names
    unfold TextAgrees
    cases n with
    | zero => exact .cutOff rfl
    | succ n =>
      by_cases hneeds : (a.unfolding id).Needs .encode
      · cases hcore : a.core id with
        | none => exact absurd (unfolding_eq_empty hcore) hneeds.ne_empty
        | some core =>
          rw [unfolding_core hcore] at hneeds ⊢
          rw [alter_of_needs hneeds, placed_of_needs hneeds]
          exact stepsAgree orderly (standsFor_of_core hcore)
            (orderly.propertyName?_core property hcore) names
            fun m hm => ih m (Nat.lt_succ_of_le hm)
      · rw [alter_of_not_needs hneeds, placed_of_not_needs hneeds]
        exact fun _ _ => agree_plain names

end Arena

/-! ## Handles -/

theorem Halt.eq_cutOff_of_unnamed {h : Halt} (same : h.unnamed = .cutOff) : h = .cutOff := by
  cases h with
  | failed e => cases same
  | cutOff => rfl

namespace Handle

variable {e : Engine} {a : Arena} {r : Registry} {handles : List (NodeId × Handle)}

/-- What an encoder and an emitter of one type make of a value on which both finish. -/
theorem exists_agree (types : Arena.LoweredTypes {a}) (orderly : a.Orderly)
    (built : e.Builds a r handles) {id : NodeId} (property : a.propertyName? id = none)
    {encoder emitter : Handle} (hencoder : (id, encoder) ∈ handles)
    (encodes : encoder.key.target = .jsonEncode) (hemitter : (id, emitter) ∈ handles)
    (emits : emitter.key.target = .jsonStringify) {v : Value} (names : v.hasNames = true)
    (encoderEnds : (encoder.transform r v).stop ≠ some .cutOff)
    (emitterEnds : emitter.stringify r v ≠ .error .cutOff) :
    ∃ written : Except Halt (Option String),
      Agree Json.MemberDenoted (encoder.transform r v).unnamed written ∧
      (emitter.stringify r v).mapError Halt.unnamed = written.map (·.getD "null") := by
  obtain ⟨hr, hhandles⟩ := built.compiled
  have hfilled := hr.filledFrom (types.faithful.faithful rfl)
  obtain ⟨hkey, hid, -⟩ := hhandles _ hencoder
  obtain ⟨hkey', hid', -⟩ := hhandles _ hemitter
  dsimp only at hkey hid hkey' hid'
  have hkey : ⟨(a.node id).identity, Way.encode.target⟩ ∈ r.keys := by
    rw [← hid, show Way.encode.target = .jsonEncode from rfl, ← encodes]
    exact hkey
  have hkey' : ⟨(a.node id).identity, .jsonStringify⟩ ∈ r.keys := by
    rw [← hid', ← emits]
    exact hkey'
  obtain ⟨m, hm⟩ := Program.within_transform encoder.revivers hfilled types.marked rfl hkey v
  obtain ⟨n, hn⟩ := Program.settles_stringify emitter.revivers hfilled types.marked rfl hkey' v
  have hencoded := (hm (max m n) (le_max_left m n)).resolve_left fun hcut => by
    rw [transform, hid, encodes] at encoderEnds
    exact encoderEnds hcut
  have hwritten := (hn (max m n) (le_max_right m n)).resolve_left fun hcut => by
    rw [stringify, hid'] at emitterEnds
    exact emitterEnds hcut
  have hencoded : (encoder.transform r v).unnamed =
      TypeTree.alter .encode encoder.revivers (max m n) (a.unfolding id) v := by
    rw [transform, hid, encodes]
    exact hencoded
  have hwritten : (emitter.stringify r v).mapError Halt.unnamed =
      (TypeTree.placed (TypeTree.leavesOut (max m n)) (TypeTree.written (max m n))
        (a.unfolding id) v).map (·.getD "null") := by
    rw [stringify, hid']
    exact hwritten
  have hagrees : a.TextAgrees encoder.revivers (max m n) id v :=
    Arena.textAgrees orderly (max m n) id v property names
  refine ⟨_, ?_, hwritten⟩
  rw [hencoded]
  refine hagrees (fun hcut => ?_) fun hcut => ?_
  · rw [← hencoded] at hcut
    obtain ⟨halt, hstop, hhalt⟩ := Option.map_eq_some_iff.mp hcut
    rw [Halt.eq_cutOff_of_unnamed hhalt] at hstop
    exact encoderEnds hstop
  · rw [hcut] at hwritten
    cases htext : emitter.stringify r v with
    | ok text =>
      rw [htext] at hwritten
      cases hwritten
    | error halt =>
      rw [htext] at hwritten
      rw [htext, Halt.eq_cutOff_of_unnamed (Except.error.inj hwritten)] at emitterEnds
      exact emitterEnds rfl

/-- An emitter succeeds when the encoder does, for every value on which both finish, and then its text
denotes the document. -/
theorem denotedBy_encode (types : Arena.LoweredTypes {a}) (orderly : a.Orderly)
    (built : e.Builds a r handles) {id : NodeId} (property : a.propertyName? id = none)
    {encoder emitter : Handle} (hencoder : (id, encoder) ∈ handles)
    (encodes : encoder.key.target = .jsonEncode) (hemitter : (id, emitter) ∈ handles)
    (emits : emitter.key.target = .jsonStringify) {v : Value} (names : v.hasNames = true)
    (encoderEnds : encoder.encode r v ≠ .error .cutOff)
    (emitterEnds : emitter.stringify r v ≠ .error .cutOff) :
    ((∃ text, emitter.stringify r v = .ok text) ↔ ∃ j, encoder.encode r v = .ok j) ∧
    ∀ text j, emitter.stringify r v = .ok text → encoder.encode r v = .ok j →
      j.DenotedBy text := by
  have ends : (encoder.transform r v).stop ≠ some .cutOff := fun hcut => by
    rw [encode, Changed.toExcept, hcut] at encoderEnds
    exact encoderEnds rfl
  obtain ⟨written, hagree, hwritten⟩ := exists_agree types orderly built property hencoder encodes
    hemitter emits names ends emitterEnds
  have texts {text : String} : emitter.stringify r v = .ok text ↔
      ∃ slot, written = .ok slot ∧ slot.getD "null" = text := by
    cases hstringify : emitter.stringify r v with
    | ok text' =>
      rw [hstringify] at hwritten
      cases written with
      | ok slot =>
        have hslot : text' = slot.getD "null" := Except.ok.inj hwritten
        simp [hslot]
      | error halt => cases hwritten
    | error halt =>
      rw [hstringify] at hwritten
      cases written with
      | ok slot => cases hwritten
      | error halt => simp
  cases hencode : encoder.transform r v with
  | mk value stop =>
    rw [hencode] at hagree
    cases stop with
    | some halt =>
      cases hagree
      have hfailed : encoder.encode r v = .error halt := by
        rw [encode, hencode]
        rfl
      refine ⟨?_, fun _ _ _ hj => ?_⟩
      · simp [texts, hfailed]
      · rw [hfailed] at hj
        cases hj
    | none =>
      have hresult : encoder.encode r v =
          (value.toJsonSlot.map (·.getD .null)).mapError Halt.failed := by
        rw [encode_of_done hencode, Value.toJson]
        cases value.toJsonSlot <;> rfl
      change Agree Json.MemberDenoted (.done value) written at hagree
      cases hagree with
      | @written _ j slot document denotes =>
        have hj : encoder.encode r v = .ok (j.getD .null) := by
          rw [hresult, document]
          rfl
        refine ⟨?_, ?_⟩
        · simp [texts, hj]
        · intro text j' htext hj'
          obtain ⟨_, ⟨⟩, rfl⟩ := texts.mp htext
          rw [hj] at hj'
          cases hj'
          exact denotes.item
      | @refused _ error halt document _ =>
        have hj : encoder.encode r v = .error (.failed error) := by
          rw [hresult, document]
          rfl
        refine ⟨?_, fun _ _ _ hj' => ?_⟩
        · simp [texts, hj]
        · rw [hj] at hj'
          cases hj'

/-- **An emitter writes what the encoder makes**, for every value on which both finish: one succeeds
when the other does, and then the text is well-formed JSON and is read as the document, numbers
compared as doubles, by every reader that goes deep enough. -/
theorem stringify_denotes_encode (types : Arena.LoweredTypes {a}) (orderly : a.Orderly)
    (built : e.Builds a r handles) {id : NodeId} (property : a.propertyName? id = none)
    {encoder emitter : Handle} (hencoder : (id, encoder) ∈ handles)
    (encodes : encoder.key.target = .jsonEncode) (hemitter : (id, emitter) ∈ handles)
    (emits : emitter.key.target = .jsonStringify) {v : Value} (names : v.hasNames = true)
    (encoderEnds : encoder.encode r v ≠ .error .cutOff)
    (emitterEnds : emitter.stringify r v ≠ .error .cutOff) :
    ((∃ text, emitter.stringify r v = .ok text) ↔ ∃ j, encoder.encode r v = .ok j) ∧
    ∀ text j, emitter.stringify r v = .ok text → encoder.encode r v = .ok j →
      ∃ depth, ∀ d, depth ≤ d → ∃ j', Json.readWithin d text = .ok j' ∧ j'.same j = true := by
  obtain ⟨both, denotes⟩ := denotedBy_encode types orderly built property hencoder encodes hemitter
    emits names encoderEnds emitterEnds
  exact ⟨both, fun text j htext hj => (denotes text j htext hj).read⟩

end Handle

/-! ## Accounts

An account has a balance, and its entries are amounts or transfers from other accounts.  The value
has what the type says nothing about: members that no property declares, one of them a function.
-/

namespace Accounts

def sample : Sample where
  graph := {
    nodes := #[
      ⟨.objectLiteral [⟨1⟩, ⟨3⟩], some "Account"⟩,
      ⟨.property "balance" ⟨2⟩ false false, none⟩,
      ⟨.bigint, none⟩,
      ⟨.property "entries" ⟨4⟩ false false, none⟩,
      ⟨.array ⟨5⟩, none⟩,
      ⟨.union [⟨2⟩, ⟨6⟩], none⟩,
      ⟨.objectLiteral [⟨7⟩, ⟨9⟩], none⟩,
      ⟨.property "on" ⟨8⟩ false false, none⟩,
      ⟨.classType "Date" [], none⟩,
      ⟨.property "origin" ⟨0⟩ true false, none⟩]
    roots := [("Account", ⟨0⟩)] }
  targets := [.jsonStringify, .jsonEncode]

def encoder : Handle := sample.handle .jsonEncode

def printer : Handle := sample.handle .jsonStringify

def value : Value :=
  let other : Value := .object [("entries", .array []), ("note", .function "f"), ("balance", .bigint 3)]
  .object [("balance", .bigint (-5)), ("rate", .number 1.5),
    ("entries", .array [.bigint 7, .object [("on", .date ⟨0, 0⟩), ("origin", other)]])]

/-- What is computed here: the type is lowered and in order, its functions are built and end. -/
theorem computed : sample.loads = true ∧ sample.isFaithful = true ∧ sample.isBuilt = true ∧
    sample.isOwn = true ∧ sample.arena.isOrderly = true ∧ value.hasNames = true ∧
    (encoder.encode sample.registry value).isOk = true ∧
    (printer.stringify sample.registry value).isOk = true := by
  decide +kernel

theorem text_denotes_document :
    ((∃ text, printer.stringify sample.registry value = .ok text) ↔
      ∃ j, encoder.encode sample.registry value = .ok j) ∧
    ∀ text j, printer.stringify sample.registry value = .ok text →
      encoder.encode sample.registry value = .ok j →
      ∃ depth, ∀ d, depth ≤ d → ∃ j', Json.readWithin d text = .ok j' ∧ j'.same j = true := by
  obtain ⟨loads, faithful, built, own, orderly, names, encodes, emits⟩ := computed
  have types := Sample.loweredTypes loads faithful
  exact Handle.stringify_denotes_encode types
    (Arena.orderly_of_isOrderly (types.marked sample.arena rfl) orderly) (Sample.builds built)
    (Sample.own own).2 (Sample.mem_handles (by decide)) rfl (Sample.mem_handles (by decide)) rfl
    names (Except.ne_error_of_isOk encodes _) (Except.ne_error_of_isOk emits _)

end Accounts

end Typeforge
