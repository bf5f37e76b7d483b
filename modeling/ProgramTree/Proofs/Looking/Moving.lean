/-
Looks that move no cursor: lengths and items are found without a walk.
-/
import ProgramTree.Proofs.Modules

namespace ProgramTree.Look

variable {α : Type}

theorem still_plainItems (v : Value) : Still (plainItems v) := by
  cases v with
  | text t => exact still_pure _
  | ref a =>
    refine (still_cell a).bind fun c => ?_
    cases c with
    | node n => exact still_fail _
    | _ => exact still_pure _
  | _ => exact (still_typeName _).bind fun _ => still_fail _

theorem still_plainLength (v : Value) : Still (plainLength v) :=
  still_rescue ((still_plainItems v).bind fun _ => still_pure _) fun _ =>
    (still_typeName v).bind fun _ => still_fail _

theorem still_length (v : Value) : Still (length v) :=
  (still_holder v).bind fun w => still_plainLength w

theorem still_pick (owner : String) (xs : List α) (index : Value) :
    Still (pick owner xs index) := by
  refine Still.bind ?_ fun i => ?_
  · cases index with
    | int | bool => exact still_pure _
    | _ => exact (still_typeName _).bind fun _ => still_fail _
  · dsimp only
    generalize (if i < 0 then i + (xs.length : Int) else i) = j
    split
    · exact still_fail _
    · exact still_ofOption _ _

theorem still_missingKey (v : Value) : Still (missingKey v : Look α) := by
  cases v with
  | ref a => exact (still_typeName _).bind fun _ => still_fail _
  | _ => exact still_fail _

theorem still_plainItem (v index : Value) : Still (plainItem v index) := by
  cases v with
  | text t => exact (still_pick _ _ _).bind fun _ => still_pure _
  | ref a =>
    refine (still_cell a).bind fun c => ?_
    cases c with
    | list xs | tuple xs => exact still_pick _ _ _
    | dict es =>
      dsimp only
      split
      · exact still_pure _
      · exact still_missingKey _
    | _ => exact still_fail _
  | _ => exact (still_typeName _).bind fun _ => still_fail _

theorem still_itemAt (v index : Value) : Still (itemAt v index) :=
  (still_holder v).bind fun w => still_plainItem w index

end ProgramTree.Look
