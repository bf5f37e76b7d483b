/-
Operations on their own are read back as they were converted.

Where an operation is not given back, the touch-up has nothing to touch: no place of the
text starts a returned operation, however the names in it are spelt. So the text of a
node is the text that the writer made, and the grammar reads exactly the term from it.

Groups of the tree are not part of the term. The writer puts parentheses where the
levels ask for them, and the levels of the writer are those of the grammar. Two nodes
therefore share a text only if they denote the same operation but for groups.
-/
import ProgramTree.Proofs.Expression

open ProgramTree.Look ProgramTree.Target.Convert ProgramTree.Target.Reading

namespace ProgramTree.Target

namespace Reading

/-- What a text says, if it is an expression. -/
def Says (text : String) (t : Term) : Prop :=
  ∃ ts, tokens? text.toList = some ts ∧ Derives Level.test ts t

/-- An expression says one thing at most. -/
theorem Says.unique {text : String} {t t' : Term} (h : Says text t) (h' : Says text t') :
    t = t' := by
  obtain ⟨ts, hts, ht⟩ := h
  obtain ⟨ts', hts', ht'⟩ := h'
  rw [hts, Option.some.injEq] at hts'
  exact ht.unique (hts' ▸ ht')

end Reading

/-! ## Operations without groups -/

/-- The operation that an expression is when all groups are removed: signs over variables
and numbers that are not negative. Other expressions are none. -/
def Expression.operation? : Expression → Option Operation
  | .use id => some (.use id)
  | .number (.ofNat n) => some (.number n)
  | .binary sign l r => do return .op sign (← l.operation?) (← r.operation?)
  | .group x => x.operation?
  | _ => none

/-- Groups leave nothing behind in the term. -/
theorem Expression.term_of_operation? {e : Expression} {o : Operation} (h : e.operation? = some o) :
    e.term = o.term := by
  induction e generalizing o with
  | use id =>
    obtain rfl := Option.some.inj h
    rfl
  | number n =>
    cases n with
    | ofNat n =>
      obtain rfl := Option.some.inj h
      rfl
    | negSucc n => cases h
  | binary sign l r ihl ihr =>
    obtain ⟨left, hleft, h⟩ := Option.bind_eq_some_iff.mp h
    obtain ⟨right, hright, h⟩ := Option.bind_eq_some_iff.mp h
    obtain rfl := Option.some.inj h
    rw [term, ihl hleft, ihr hright, Operation.term]
  | group x ih => exact ih h
  | _ => cases h

namespace Operation

/-- Names are spelt with the narrow alphabet and are none of the keywords, and numbers have
no more digits than a text may give them. -/
def Plain : Operation → Prop
  | .use id => IsName id ∧ ∀ c ∈ id.toList, c.toNat < 128
  | .number n => (toString n).length ≤ 4300
  | .op _ left right => left.Plain ∧ right.Plain

/-- Whether an operation is plain can be computed. -/
def decidePlain : (o : Operation) → Decidable o.Plain
  | .use id =>
    have : Decidable (∀ c ∈ id.toList, c.toNat < 128) := List.decidableBAll _ id.toList
    inferInstanceAs (Decidable (IsName id ∧ ∀ c ∈ id.toList, c.toNat < 128))
  | .number n => Nat.decLe (toString n).length 4300
  | .op _ left right =>
    have := left.decidePlain
    have := right.decidePlain
    inferInstanceAs (Decidable (left.Plain ∧ right.Plain))

instance (o : Operation) : Decidable o.Plain :=
  o.decidePlain

theorem Plain.named {o : Operation} (h : o.Plain) : o.Named := by
  induction o with
  | use id => exact h.1
  | number n => trivial
  | op sign left right ihl ihr => exact ⟨ihl h.1, ihr h.2⟩

/-! ## Texts -/

/-- The source of an operation on its own. -/
theorem source_term (o : Operation) : o.term.source = .ok (String.ofList (o.text Level.test)) := by
  obtain ⟨ds, hds, ht⟩ := o.write_term Level.test Pen.start
  have hpieces : (Pen.start.putAll (ds.map Doc.text).toArray).pieces.toList = ds.map Doc.text := by
    simp [Pen.putAll, Pen.start]
  rw [Term.source, hds, ok_andThen, Pen.joined, hpieces, texts_map_text, ok_andThen]
  refine congrArg Except.ok (String.toList_inj.mp ?_)
  rw [String.toList_join, String.toList_ofList, ht]

/-- The text of an operation says the operation. -/
theorem says_text (o : Operation) (hnamed : o.Named) :
    Says (String.ofList (o.text Level.test)) o.term := by
  refine ⟨o.tokens Level.test, ?_, o.derives_tokens hnamed Level.test⟩
  have hscans := o.scans_text hnamed Level.test stops_nil
  rw [List.append_nil] at hscans
  rw [String.toList_ofList]
  exact hscans.tokens?_eq

end Operation

/-! ## Nodes -/

variable {s : Store} {v : Value} {e : Expression} {o : Operation} {margin : Margin}

/-- The text of a node that denotes an operation: nothing in it is touched up, and without
a margin nothing is moved. -/
theorem Denotes.run_source (h : Denotes s v e) (ho : e.operation? = some o) (hnamed : o.Named)
    (hmargin : margin.level = 0) :
    run (source margin v) s = .ok (String.ofList (o.text Level.test)) := by
  have huntouched := (o.untouched_text hnamed Level.test).parenthesized_eq
  have hindented : ∀ text, margin.indented text = text := by
    intro text
    rw [Margin.indented, if_pos (Int.le_of_eq hmargin)]
  rw [Look.source, run_rescue]
  simp only [run_bind, h.run_term, Expression.term_of_operation? ho, ok_bind, run_ofOutcome,
    o.source_term, String.toList_ofList, huntouched, hindented, run_pure]

/-- **Operations and their texts.** The text of a node that denotes an operation is an
expression. It says exactly the term that the node is converted to, and nothing else. Nodes
that have one text denote one operation, but for groups. -/
theorem operation_reads_back (h : Denotes s v e) (ho : e.operation? = some o) (hplain : o.Plain)
    (hmargin : margin.level = 0) :
    ∃ text, run (source margin v) s = .ok text ∧ run (term v) s = .ok o.term ∧
      (∀ t, Says text t ↔ t = o.term) ∧
      ∀ (s' : Store) (v' : Value) (e' : Expression) (o' : Operation) (margin' : Margin),
        Denotes s' v' e' → e'.operation? = some o' → o'.Plain → margin'.level = 0 →
        run (source margin' v') s' = .ok text → o' = o := by
  have hsays := o.says_text hplain.named
  refine ⟨_, h.run_source ho hplain.named hmargin, ?_, ?_, ?_⟩
  · rw [h.run_term, Expression.term_of_operation? ho]
  · intro t
    constructor
    · exact fun ht => ht.unique hsays
    · rintro rfl
      exact hsays
  · intro s' v' e' o' margin' h' ho' hplain' hmargin' hsource
    -- One text says both terms, and an operation is known by its term.
    rw [h'.run_source ho' hplain'.named hmargin', Except.ok.injEq] at hsource
    have hsays' := o'.says_text hplain'.named
    rw [hsource] at hsays'
    exact Operation.term_injective (hsays'.unique hsays)

/-! ## A difference of powers -/

/-- A difference whose operands are a power of a sum in a group, and a difference. -/
def subtracting : Build Unit := do
  let x ← Build.construct .variableUse [] [(.name, .text "returned")]
  let y ← Build.construct .variableUse [] [(.name, .text "y")]
  let two ← Build.construct .literalInt32 [] [(.value, .int 2)]
  let sum ← Build.construct .binaryOp [] [(.opCode, .text "+"), (.lhs, .ref x), (.rhs, .ref y)]
  let group ← Build.construct .parenthesizedExpr [] [(.value, .ref sum)]
  let inner ← Build.construct .binaryOp [] [(.opCode, .text "**"), (.lhs, .ref two), (.rhs, .ref y)]
  let power ← Build.construct .binaryOp []
    [(.opCode, .text "**"), (.lhs, .ref group), (.rhs, .ref inner)]
  let less ← Build.construct .binaryOp [] [(.opCode, .text "-"), (.lhs, .ref y), (.rhs, .ref two)]
  let _ ← Build.construct .binaryOp [] [(.opCode, .text "-"), (.lhs, .ref power), (.rhs, .ref less)]

/-- The store with the difference in it. -/
def subtractingStore : Store :=
  (subtracting Store.initial).2

/-- The difference as an expression. -/
def difference : Expression :=
  .binary .sub
    (.binary .pow (.group (.binary .add (.use "returned") (.use "y")))
      (.binary .pow (.number 2) (.use "y")))
    (.binary .sub (.use "y") (.number 2))

/-- The difference as an operation. -/
def bareDifference : Operation :=
  .op .sub
    (.op .pow (.op .add (.use "returned") (.use "y")) (.op .pow (.number 2) (.use "y")))
    (.op .sub (.use "y") (.number 2))

/-- What the constructors left behind. -/
theorem subtractingStore_nodes :
    NodeWith subtractingStore (.ref 21) .variableUse [(.name, .text "returned")] ∧
    NodeWith subtractingStore (.ref 25) .variableUse [(.name, .text "y")] ∧
    NodeWith subtractingStore (.ref 29) .literalInt32 [(.value, .int 2)] ∧
    NodeWith subtractingStore (.ref 33) .binaryOp [(.opCode, .text "+"), (.lhs, .ref 21),
      (.rhs, .ref 25)] ∧
    NodeWith subtractingStore (.ref 35) .parenthesizedExpr [(.value, .ref 33)] ∧
    NodeWith subtractingStore (.ref 39) .binaryOp [(.opCode, .text "**"), (.lhs, .ref 29),
      (.rhs, .ref 25)] ∧
    NodeWith subtractingStore (.ref 41) .binaryOp [(.opCode, .text "**"), (.lhs, .ref 35),
      (.rhs, .ref 39)] ∧
    NodeWith subtractingStore (.ref 43) .binaryOp [(.opCode, .text "-"), (.lhs, .ref 25),
      (.rhs, .ref 29)] ∧
    NodeWith subtractingStore (.ref 45) .binaryOp [(.opCode, .text "-"), (.lhs, .ref 41),
      (.rhs, .ref 43)] := by
  decide +kernel

/-- The node denotes the difference. -/
theorem denotes_difference : Denotes subtractingStore (.ref 45) difference := by
  obtain ⟨⟨hx, hxName⟩, ⟨hy, hyName⟩, ⟨htwo, htwoValue⟩, ⟨hsum, hsumCode, hsuml, hsumr⟩,
    ⟨hgroup, hinner⟩, ⟨hpower, hpowerCode, hpowerl, hpowerr⟩,
    ⟨houter, houterCode, houterl, houterr⟩,
    ⟨hless, hlessCode, hlessl, hlessr⟩, ⟨hall, hallCode, halll, hallr⟩⟩ := subtractingStore_nodes
  have hyUse := Denotes.use hy hyName
  have htwoNumber := Denotes.number htwo (by decide) htwoValue
  have hsumNode := Denotes.binary hsum hsumCode rfl hsuml hsumr (.use hx hxName) hyUse
  have hpowerNode := Denotes.binary hpower hpowerCode rfl hpowerl hpowerr htwoNumber hyUse
  exact .binary hall hallCode rfl halll hallr
    (.binary houter houterCode rfl houterl houterr (.group hgroup hinner hsumNode) hpowerNode)
    (.binary hless hlessCode rfl hlessl hlessr hyUse htwoNumber)

/-- The text keeps the parentheses that are needed and no others, and says the difference. -/
theorem difference_reads_back :
    run (source Margin.start (.ref 45)) subtractingStore =
      .ok "(returned + y) ** 2 ** y - (y - 2)" ∧
    ∀ t, Says "(returned + y) ** 2 ** y - (y - 2)" t ↔ t = bareDifference.term := by
  have hplain : bareDifference.Plain := by decide +kernel
  obtain ⟨text, hsource, -, hsays, -⟩ :=
    operation_reads_back denotes_difference (o := bareDifference) rfl hplain
      (rfl : Margin.start.level = 0)
  have htext : text = "(returned + y) ** 2 ** y - (y - 2)" := by
    rw [denotes_difference.run_source (o := bareDifference) rfl hplain.named rfl,
      Except.ok.injEq] at hsource
    rw [← hsource]
    decide +kernel
  subst htext
  exact ⟨hsource, hsays⟩

end ProgramTree.Target
