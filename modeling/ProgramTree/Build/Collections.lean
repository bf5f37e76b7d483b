/-
Sets and dictionaries of values.

Members of a set and keys of a dictionary are told apart by a mark, which for a
node is the digest of its outline. Two things with one mark are still different
unless they are one thing or compare as equal.
-/
import ProgramTree.Build.Operators

namespace ProgramTree.Build

/-- What tells members of a set apart. -/
inductive Mark
  /-- A node by the digest of its outline. -/
  | digest (hex : String)
  /-- A thing that has no outline, by itself. -/
  | thing (a : Address)
  | plain (v : Value)
  | tuple (marks : List Mark)
deriving Repr

/-- Whether two marks are the same. -/
def Mark.same : Mark → Mark → Bool
  | .digest x, .digest y => x = y
  | .thing a, .thing b => a = b
  | .plain v, .plain w => v.plainlyEqual w
  | .tuple xs, .tuple ys => sameAll xs ys
  | _, _ => false
where
  /-- Whether marks are the same one by one. -/
  sameAll : List Mark → List Mark → Bool
    | [], [] => true
    | x :: xs, y :: ys => x.same y && sameAll xs ys
    | _, _ => false

/-- The mark of a value, looking into tuples down to a depth. -/
def mark : Nat → Value → Look Mark
  | 0, _ => Look.fail .tooDeep
  | depth + 1, v => do
    match v with
    | .ref a =>
      match ← Look.cell a with
      | .node n => if n.form.isA .node then return .digest (← Look.digest v) else return .thing a
      | .tuple xs => return .tuple (← xs.mapM (mark depth))
      | c => Look.fail (.unhashable c.typeName)
    | _ => return .plain v

/-- The mark of a value. -/
def markOf (v : Value) : Look Mark := do
  mark ((← Look.store).cells.size + 1) v

/-- Whether two values of one mark are one member: the same thing, or equal. -/
def oneMember (old new : Value) : Build Bool := do
  match old, new with
  | .ref a, .ref b =>
    if a = b then return true
    match ← Look.cell a with
    | .tuple _ => return true
    | _ => return (← compare .equal old new) ≠ .bool false
  | _, _ => return true

/-- The first member of a mark that is the same as a value. -/
def findMember (m : Mark) (v : Value) : List (Mark × Value) → Build (Option Value)
  | [] => return none
  | (k, w) :: rest => do
    if k.same m then
      if ← oneMember w v then return some w else findMember m v rest
    else findMember m v rest

/-- Adds a value to the members of a set, unless it is among them. -/
def addMember (members : List (Mark × Value)) (v : Value) : Build (List (Mark × Value)) := do
  let m ← markOf v
  match ← findMember m v members with
  | some _ => return members
  | none => return members ++ [(m, v)]

/-- A new set of some values, in the order in which they first occur. -/
def newSet (items : List Value) : Build Value := do
  let members ← items.foldlM addMember []
  return .ref (← new (.set (members.map Prod.snd)))

/-- Puts an entry into a dictionary: a key that is there keeps its place and takes
the new value. -/
def putEntry (entries : List (Mark × Value × Value)) (entry : Value × Value) :
    Build (List (Mark × Value × Value)) := do
  let m ← markOf entry.1
  match ← findMember m entry.1 (entries.map fun e => (e.1, e.2.1)) with
  | some k =>
    return entries.map fun e =>
      if e.1.same m && e.2.1 = k then (e.1, k, entry.2) else e
  | none => return entries ++ [(m, entry)]

/-- A new dictionary of marked entries. -/
def newDictFrom (entries : List (Mark × Value × Value)) : Build Value := do
  return .ref (← new (.dict (entries.map Prod.snd)))

end ProgramTree.Build
