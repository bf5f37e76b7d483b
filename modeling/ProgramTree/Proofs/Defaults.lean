/-
Functions without parameters share them.

The default of the parameters is one container for all functions without a name, which is kept
as it is. So a parameter that is added to one function shows in the text of every other.
-/
import ProgramTree.Proofs.Joining

namespace ProgramTree

open Look Build

variable {s : Store} {a : Address} {xs : List Value}

/-- A function that was made without parameters. -/
def Store.LacksParams (s : Store) (a : Address) : Prop :=
  s.Pinned a fun n => n.form = .lambdaExpr ∧ n.get? .params = some (.ref Shared.noParams)

instance (s : Store) (a : Address) : Decidable (s.LacksParams a) :=
  inferInstanceAs (Decidable (∃ n ∈ s.node? a, n.form = _ ∧ n.get? _ = _))

/-- The text of a function names its parameters, in their order. -/
def Store.NamesParams (s : Store) (v : Value) (xs : List Value) : Prop :=
  ∀ r, run (text v) s = .ok r → ∃ names rest,
    xs.mapM (fun x => run (field x .name) s) = .ok (names.map .text) ∧
      r = "lambda " ++ String.intercalate ", " names ++ ": " ++ rest

theorem construct_lambda (s : Store) (body : Value) : ∃ t,
    construct .lambdaExpr [] [(.body, body)] s = (.ok s.nextAddress, t) ∧
      t.LacksParams s.nextAddress := by
  obtain ⟨args, hargs, hparams⟩ : ∃ args, Arguments.fill .lambdaExpr [(.body, body)] = .ok args ∧
    args.get .params = .ref Shared.noParams := ⟨_, rfl, rfl⟩
  have hfills (a : Address) : Fills a .lambdaExpr [] [(.params, .ref Shared.noParams)]
      (fill a .lambdaExpr args []) := by
    have hstart : Fills a .lambdaExpr [] [] (startNode a args) :=
      fills_of_pins fun _ _ hset => pins_startNode (fun hab n f v => hset hab n f v (by simp)) args
    exact hparams ▸ hstart.bind fun _ => (fills_setField .params _).bind fun _ =>
      (fills_setOther (by simp [Param.need])).bind fun _ => fills_setOther (by simp)
  obtain ⟨n, hn, hform, hfields⟩ := (construct_eq_ok hargs hfills rfl).2
  exact ⟨_, rfl, n, hn, hform, hfields _ (List.mem_singleton_self _)⟩

theorem eq_map_of_textsFrom {values : List Value} {names : List String} {i : Nat}
    (h : run (textsFrom i values) s = .ok names) : values = names.map .text := by
  fun_induction textsFrom i values generalizing names with
  | case1 =>
    cases h
    rfl
  | case2 i name rest ih =>
    obtain ⟨_, hrest, h⟩ := bind_eq_ok.mp ((run_bind ..).symm.trans h)
    cases h
    rw [ih hrest, List.map_cons]
  | case3 =>
    obtain ⟨_, -, h⟩ := bind_eq_ok.mp ((run_bind ..).symm.trans h)
    cases h

theorem Store.LacksParams.run_params (h : s.LacksParams a) :
    run (field (.ref a) .params) s = .ok (.ref Shared.noParams) := by
  obtain ⟨n, hn, hform, hparams⟩ := h
  exact run_field_of_get? hn (by rw [hform]; decide) hparams

theorem Store.LacksParams.names (h : s.LacksParams a)
    (hxs : Contains s (.ref Shared.noParams) xs) : s.NamesParams (.ref a) xs := by
  intro r hr
  have hparams := h.run_params
  obtain ⟨n, hn, hform, -⟩ := h
  have hlabel : n.form.ancestors.findSome? Label.own? = some Label.lambda := hform ▸ rfl
  rw [text, Describe.deep, run_bind, run_store, ok_bind, Describe.toDepth_succ] at hr
  simp only [Describe.step, Describe.enter, Describe.textStep, run_bind, ok_bind, Label.ofNode,
    run_cell (node?_eq_some.mp hn), hlabel, Label.lambda, hparams, hxs.run_forEach] at hr
  obtain ⟨values, hvalues, hr⟩ := bind_eq_ok.mp hr
  obtain ⟨names, hnames, hr⟩ := bind_eq_ok.mp hr
  obtain ⟨rest, -, hr⟩ := bind_eq_ok.mp hr
  cases hr
  exact ⟨names, rest, eq_map_of_textsFrom hnames ▸ hvalues, rfl⟩

/-- **Shared defaults.** Functions made of a body alone lack parameters. Of two functions that
do, one takes any node as a parameter, and the text of the other then names it as well. -/
theorem default_params_shared {b : Address} (hs : Built s) (ha : s.LacksParams a)
    (hb : s.LacksParams b) (body x : Value) :
    (∃ t, construct .lambdaExpr [] [(.body, body)] s = (.ok s.nextAddress, t) ∧
      t.LacksParams s.nextAddress) ∧
    ∃ p xs t, run (field (.ref a) .params) s = .ok p ∧ s.NamesParams (.ref b) xs ∧
      append p x s = (.ok (), t) ∧ t.NamesParams (.ref b) (xs ++ [x]) := by
  refine ⟨construct_lambda s body, ?_⟩
  -- the shared default is a container still, whatever has been built since
  obtain ⟨_, n, l, xs, hp, hn, hisA, hl, -, hxs, -⟩ := growing_inv
    (Hint.meets_extends (h := .growing) (v := .ref Shared.noParams) hs.sound.shared (by decide))
  cases hp
  have hkeeps : Store.Keeps _ Shared.noParams l xs := ⟨⟨n, hn, hisA, hl⟩, hxs⟩
  exact ⟨_, xs, _, ha.run_params, hb.names (.container hkeeps.isContainer),
    append_eq hkeeps.isContainer x,
    Store.LacksParams.names (hb.replace_list hxs) (.container (hkeeps.append x).isContainer)⟩

def twoFunctions : List Making :=
  [.node .identifier [] [(.name, .text "x")], .node .lambdaExpr [] [(.body, .ref 21)],
   .node .lambdaExpr [] [(.body, .ref 21)]]

theorem twoFunctions_share : ∃ s p xs t, Store.made? twoFunctions = some s ∧
    run (field (.ref 25) .params) s = .ok p ∧ s.NamesParams (.ref 26) xs ∧
      append p (.ref 21) s = (.ok (), t) ∧ t.NamesParams (.ref 26) (xs ++ [.ref 21]) := by
  obtain ⟨s, hs, h⟩ := (Option.any_eq_true _ _).mp (show (Store.made? twoFunctions).any
    (fun s => s.LacksParams 25 ∧ s.LacksParams 26) = true by decide +kernel)
  obtain ⟨ha, hb⟩ := of_decide_eq_true h
  obtain ⟨-, p, xs, t, h⟩ := default_params_shared (built_of_made hs) ha hb .none (.ref 21)
  exact ⟨s, p, xs, t, hs, h⟩

end ProgramTree
