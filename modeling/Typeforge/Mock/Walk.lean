/-
# `Typeforge.Mock.Walk` — drawing mocks of types

Drawing walks over the arena itself, and every draw is fresh.  A type without
finite instances is refused where the draw comes to it.
-/
import Typeforge.Mock.Draw

namespace Typeforge

namespace Mock

/-- Draws elements in places counted from `start`. -/
def drawElements (child : Site → NodeId → Draw Value) (site : Site) (id : NodeId)
    (start count : Nat) : Draw (List Value) :=
  (List.range' start count).mapM fun i => child (site.part (.element i)) id

/-- Draws an array of a random length. -/
def drawArray (x : Context) (child : Site → NodeId → Draw Value) (site : Site) (item : NodeId) :
    Draw Value := do
  let length ← x.arrayLength site
  let items ← drawElements child site item 0 length
  pure (.array items)

/-- A key that an index signature covers. -/
def drawKey (x : Context) : KeyFilter → Random String
  | .anyKey => do
    let s ← x.string
    pure ("k" ++ s)
  | .numeric => do
    let n ← Random.below32 1000
    pure (integerText n)

/-- Draws the declared members of an object, those left out excepted. -/
def drawProperties (x : Context) (child : Site → NodeId → Draw Value) (site : Site) :
    List Arena.Property → Members Value → Draw (Members Value)
  | [], out => pure out
  | p :: rest, out => do
    let included ← if p.optional then x.includeOptional site else pure true
    if included then do
      let v ← child (site.part (.member p.name)) p.id
      drawProperties x child site rest (Members.put p.name v out)
    else drawProperties x child site rest out

/-- Draws so many more members for an index signature; a key that is taken gets none. -/
def drawIndexed (x : Context) (child : Site → NodeId → Draw Value) (site : Site) (id : NodeId)
    (filter : KeyFilter) (declared : List String) : Nat → Members Value → Draw (Members Value)
  | 0, out => pure out
  | count + 1, out => do
    let key ← drawKey x filter
    if Members.has key out || declared.contains key then
      drawIndexed x child site id filter declared count out
    else do
      let v ← child (site.part (.member key)) id
      drawIndexed x child site id filter declared count (Members.put key v out)

/-- Draws an object. -/
def drawObject (x : Context) (child : Site → NodeId → Draw Value) (site : Site)
    (ids : List NodeId) (index : Option NodeId) : Draw Value := do
  let props := x.arena.properties ids
  let out ← drawProperties x child site props []
  match x.arena.indexFilter index with
  | some (id, filter) => do
    let count ← x.indexKeys site
    let out ← drawIndexed x child site id filter (props.map (·.name)) count out
    pure (.object out)
  | none => pure (.object out)

/-- Draws the elements in fixed positions, up to the first optional one that is left out, and says
whether none was. -/
def drawFixed (x : Context) (child : Site → NodeId → Draw Value) (site : Site) :
    Nat → List NodeId → Draw (List Value × Bool)
  | _, [] => pure ([], true)
  | i, id :: rest => do
    let included ← if (x.arena.node id).optional then x.includeOptional site else pure true
    if included then do
      let v ← child (site.part (.element i)) id
      let (items, complete) ← drawFixed x child site (i + 1) rest
      pure (v :: items, complete)
    else pure ([], false)

/-- Draws a tuple. -/
def drawTuple (x : Context) (child : Site → NodeId → Draw Value) (site : Site)
    (members : List NodeId) : Draw Value := do
  let (fixed, rest) := x.arena.splitTuple members
  let (items, complete) ← drawFixed x child site 0 fixed
  match rest, complete with
  | some id, true => do
    let length ← x.arrayLength site
    let others ← drawElements child site id fixed.length length
    pure (.array (items ++ others))
  | _, _ => pure (.array items)

/-- Draws an instance of a node, those of its children by `child`. -/
def drawNode (x : Context) (child : Site → NodeId → Draw Value) (site : Site) (n : Node) :
    Draw Value :=
  match n.shape with
  | .atom a => drawAtom x site a
  | .array item => drawArray x child site item
  | .parameter _ item true => drawArray x child site item
  | .property _ id | .tupleMember id | .indexSignature _ id | .rest id
  | .parameter _ id false => child site id
  | .promise _ => site.promiseNotData
  | .object props index _ => drawObject x child site props index
  | .tuple members => drawTuple x child site members
  | .union members => do
    let id ← x.pickMember site members
    child site id
  | .function _ => site.functionNotData

/-- Draws an instance of a node, as deep as the bound. -/
def drawWithin (x : Context) : Nat → Site → NodeId → Draw Value
  | 0, site, _ => site.uninhabited
  | bound + 1, site, id =>
    let n := x.arena.node id
    match n.minHeight with
    | none => site.uninhabited
    | some _ => drawNode x (drawWithin x bound) site.deeper n

/-- Draws an instance of a node. -/
def draw (x : Context) (site : Site) (id : NodeId) : Draw Value := drawWithin x x.limit site id

/-- Draws from a node's own shape, whether it has instances or not. -/
def drawShape (x : Context) (id : NodeId) : Draw Value :=
  drawNode x (draw x) {} (x.arena.node id)

end Mock

end Typeforge
