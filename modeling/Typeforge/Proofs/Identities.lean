/-
# `Typeforge.Proofs.Identities` — what an identity is good for

Functions are registered by the identities of types, and an identity is a flat
text: the texts of the parts, put together with the names and literals of the node.
Where the text can be read in one way only, it gives the type, and functions built
for two nodes with one identity answer alike, wherever the nodes are and whichever
engines have built the functions (`Handle.answer_unnamed_of_identity`).  That it can
be read in one way only is a hypothesis there, part of `Arena.LoweredTypes`, and it is
one that types may fail to meet: the pattern of a literal is written into the text as it
is, and may read like the end of one literal and the beginning of another.  The last
section has a pair and a single pattern with one identity, of which a value is an
instance of one only (`Patterns.answers_differ_for_one_identity`).

Walks are at most 256 deep, since from the 256th on the loops of a path share a number,
and reports would not say where they have come to.  The engines have the same revivers:
with others decoders would differ for a single type already.
-/
import Typeforge.Proofs.Sharing

namespace Typeforge

namespace Engine

variable {e : Engine} {a : Arena} {r : Registry} {handles : List (NodeId × Handle)}
  {arenas : Set Arena}

/-- The handles of an engine are for the types of their nodes. -/
theorem Builds.for_of_mem (built : e.Builds a r handles) (types : Arena.LoweredTypes arenas)
    (depth : e.config.maxDepth ≤ 256) (ha : a ∈ arenas) {id : NodeId} {h : Handle}
    (hmem : (id, h) ∈ handles) : h.For arenas r (a.unfolding id) := by
  obtain ⟨-, hhandles⟩ := built.compiled
  obtain ⟨hkey, hid, -⟩ := hhandles _ hmem
  exact ⟨(built.history depth ha).filledFrom types.faithful, types.marked, hkey, a, ha, id, hid,
    rfl⟩

end Engine

namespace Handle

variable {a b : Arena} {e e' : Engine} {r r' : Registry} {handles handles' : List (NodeId × Handle)}

/-- **Functions for one identity answer alike**, on two engines with the same revivers, up to the
names of unions in errors: if identities are faithful, as soon as two nodes have one identity. -/
theorem answer_unnamed_of_identity (types : Arena.LoweredTypes {a, b})
    (built : e.Builds a r handles) (built' : e'.Builds b r' handles')
    (depth : e.config.maxDepth ≤ 256) (depth' : e'.config.maxDepth ≤ 256)
    (revivers : e.revivers = e'.revivers) {m n : NodeId}
    (same : (a.node m).identity = (b.node n).identity) {h h' : Handle} (hmem : (m, h) ∈ handles)
    (hmem' : (n, h') ∈ handles') (targets : h.key.target = h'.key.target) {v : Value}
    (ends : (h.answer r v).Finished) (ends' : (h'.answer r' v).Finished) :
    (h.answer r v).unnamed = (h'.answer r' v).unnamed := by
  have ha : a ∈ ({a, b} : Set Arena) := .inl rfl
  have hb : b ∈ ({a, b} : Set Arena) := .inr rfl
  have hfor := built.for_of_mem types depth ha hmem
  have hfor' := built'.for_of_mem types depth' hb hmem'
  rw [types.faithful a ha b hb m n same] at hfor
  obtain ⟨-, hhandles⟩ := built.compiled
  obtain ⟨-, hhandles'⟩ := built'.compiled
  have hrevivers : h.revivers = h'.revivers := by
    rw [(hhandles _ hmem).2.2, (hhandles' _ hmem').2.2, revivers]
  exact hfor.answer_unnamed hfor' targets hrevivers ends ends'

end Handle

/-! ## A pair and a single pattern -/

namespace Patterns

/-- A tuple of two patterns, and a tuple of one that reads like both. -/
def graph : TypeGraph where
  nodes := #[
    ⟨.tuple [⟨1⟩, ⟨3⟩], none⟩,
    ⟨.tupleMember ⟨2⟩ false none, none⟩,
    ⟨.literal (.regexp ⟨"a", ""⟩), none⟩,
    ⟨.tupleMember ⟨4⟩ false none, none⟩,
    ⟨.literal (.regexp ⟨"b", ""⟩), none⟩,
    ⟨.tuple [⟨6⟩], none⟩,
    ⟨.tupleMember ⟨7⟩ false none, none⟩,
    ⟨.literal (.regexp ⟨"a/,lit:/b", ""⟩), none⟩]
  roots := [("Pair", ⟨0⟩), ("Single", ⟨5⟩)]

def pair : Sample := { graph, targets := [.isType] }

def single : Sample := { graph, root := ⟨5⟩, targets := [.isType] }

/-- The two patterns. -/
def value : Value := .array [.regexp ⟨"a", ""⟩, .regexp ⟨"b", ""⟩]

/-- What is computed here: both types are lowered and tested for, with one identity. -/
theorem computed : pair.loads = true ∧ single.loads = true ∧ pair.isBuilt = true ∧
    single.isBuilt = true ∧
    (pair.arena.node pair.node).identity = (single.arena.node single.node).identity ∧
    (pair.handle .isType).isType pair.registry value = true ∧
    (single.handle .isType).isType single.registry value = false := by
  decide +kernel

/-- One identity, two types: what is an instance of one is none of the other. -/
theorem answers_differ_for_one_identity :
    pair.engine.load graph ⟨0⟩ = .ok pair.arena ∧ single.engine.load graph ⟨5⟩ = .ok single.arena ∧
    (pair.arena.node pair.node).identity = (single.arena.node single.node).identity ∧
    pair.engine.Builds pair.arena pair.registry pair.handles ∧
    single.engine.Builds single.arena single.registry single.handles ∧
    (pair.handle .isType).isType pair.registry value = true ∧
    (single.handle .isType).isType single.registry value = false := by
  obtain ⟨pairLoads, singleLoads, pairBuilt, singleBuilt, identity, accepts, rejects⟩ := computed
  exact ⟨Sample.loaded pairLoads, Sample.loaded singleLoads, identity, Sample.builds pairBuilt,
    Sample.builds singleBuilt, accepts, rejects⟩

end Patterns

end Typeforge
