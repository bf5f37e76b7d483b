/-
Modifiers of declarations, and the members of all enumerations as one type.

A modifier is one of a few named choices with a number: who may see a
declaration, where it lives, whether it may change.
-/
import ProgramTree.Kind

namespace ProgramTree

/-- Who may see a declaration. -/
inductive Visibility
  | everyone | owner | family
deriving DecidableEq, Repr

/-- Where a declaration lives. -/
inductive Scoping
  | everywhere | here
deriving DecidableEq, Repr

/-- Whether what is declared may change. -/
inductive Mutability
  | fixed | changing
deriving DecidableEq, Repr

/-- A member of an enumeration: a kind or a modifier. -/
inductive Member
  | kind (k : Kind)
  | visibility (v : Visibility)
  | scoping (s : Scoping)
  | mutability (m : Mutability)
deriving DecidableEq, Repr

/-- The enumerations. -/
inductive Enumeration
  | kind | visibility | scoping | mutability
deriving DecidableEq, Repr

namespace Visibility

/-- The name and the number of a visibility. -/
def entry : Visibility → String × Int
  | .everyone => ("public", 1)
  | .owner => ("private", 2)
  | .family => ("protected", 3)

/-- The sign of a visibility in outlines. -/
def sign : Visibility → String
  | .everyone => "+"
  | .owner => "-"
  | .family => "#"

end Visibility

/-- The name and the number of a scoping. -/
def Scoping.entry : Scoping → String × Int
  | .everywhere => ("global_", 1)
  | .here => ("local", 2)

/-- The name and the number of a mutability. -/
def Mutability.entry : Mutability → String × Int
  | .fixed => ("constant", 1)
  | .changing => ("mutable", 2)

namespace Enumeration

/-- The name of an enumeration. -/
def name : Enumeration → String
  | .kind => "ASTKind"
  | .visibility => "VisibilityKind"
  | .scoping => "ScopeKind"
  | .mutability => "MutabilityKind"

/-- The full name of an enumeration. -/
def path (e : Enumeration) : String :=
  (if e = .kind then "astx.base." else "astx.modifiers.") ++ e.name

/-- The members of an enumeration. -/
def members : Enumeration → List Member
  | .kind => Kind.all.map .kind
  | .visibility => [.visibility .everyone, .visibility .owner, .visibility .family]
  | .scoping => [.scoping .everywhere, .scoping .here]
  | .mutability => [.mutability .fixed, .mutability .changing]

end Enumeration

namespace Member

/-- The enumeration of a member. -/
def enumeration : Member → Enumeration
  | .kind _ => .kind
  | .visibility _ => .visibility
  | .scoping _ => .scoping
  | .mutability _ => .mutability

/-- The name and the number of a member. -/
def entry : Member → String × Int
  | .kind k => k.entry
  | .visibility v => v.entry
  | .scoping s => s.entry
  | .mutability m => m.entry

/-- The name of a member. -/
def name (m : Member) : String :=
  m.entry.1

/-- The number of a member. -/
def code (m : Member) : Int :=
  m.entry.2

/-- The text of a member: its enumeration and its name. -/
def text (m : Member) : String :=
  m.enumeration.name ++ "." ++ m.name

/-- The text of a member inside a collection. -/
def quoted (m : Member) : String :=
  "<" ++ m.text ++ ": " ++ toString m.code ++ ">"

end Member

namespace Enumeration

/-- The member with this name. -/
def ofName? (e : Enumeration) (s : String) : Option Member :=
  e.members.find? fun m => m.name == s

/-- The member with this number. -/
def ofCode? (e : Enumeration) (n : Int) : Option Member :=
  e.members.find? fun m => m.code == n

/-- Every member of an enumeration belongs to it. -/
theorem enumeration_of_mem (e : Enumeration) (m : Member) (h : m ∈ e.members) :
    m.enumeration = e := by
  cases e <;> simp only [members, List.mem_map, List.mem_cons, List.not_mem_nil, or_false] at h
  · obtain ⟨k, -, rfl⟩ := h; rfl
  · rcases h with rfl | rfl | rfl <;> rfl
  · rcases h with rfl | rfl <;> rfl
  · rcases h with rfl | rfl <;> rfl

end Enumeration

end ProgramTree
