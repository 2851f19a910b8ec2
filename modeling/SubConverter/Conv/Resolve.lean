/-
What the members of the groups refer to. Proxies, groups and DIRECT are names in one space. The group of an element is
called like the element's proxy where that is the only one; where no other name is one of two kinds, no reference leads
back.
-/
import SubConverter.Conv.Groups

namespace SubConverter

open CMem Fresh

/-! ## References -/

/-- A group called `g` lists a member that is the name of a group. -/
def Document.Lists (d : Document) (g h : CStr) : Prop :=
  h ∈ d.groupNames ∧ ∃ G ∈ d.groups, G.name = g ∧ h ∈ G.members

/-- Every member has a meaning, and only names in `shared` are those of a proxy and of a group; apart from
a group that lists its own name, which is in `shared`, no reference leads back. -/
structure Document.Resolves (d : Document) (shared : List CStr) : Prop where
  defined : ∀ G ∈ d.groups, ∀ m ∈ G.members, m = .lit "DIRECT" ∨ m ∈ d.names ∨ m ∈ d.groupNames
  proxyDirect : .lit "DIRECT" ∉ d.names
  groupDirect : .lit "DIRECT" ∉ d.groupNames
  disjoint : ∀ s ∈ d.names, s ∈ d.groupNames → s ∈ shared
  noLoop : ∀ g, ¬ Relation.TransGen (fun a b => d.Lists a b ∧ ¬ (a = b ∧ a ∈ shared)) g g

end SubConverter
