import TagScript.Proofs.Eval.Native
import TagScript.Eval.Step

set_option autoImplicit false

/-! # How operations halt

An operation on values, lists or files knows nothing of the instruction that asked for it: the fault
that it raises has no place yet. This holds for all operations and for all operands (`Freshly`),
and so it is evaluation alone that places a fault. Only the native functions read input, and they
alone can find it undecodable (`Native.effect_raised`). -/

namespace TagScript

/-- A way to halt as an operation raises it that reads no input: a fault has no place yet, a text
    that cannot be converted is a lookalike of a numeral, and digits are too many only beyond the
    limit. -/
def Halt.Fresh : Halt → Prop
  | .fault _ place => place = none
  | .crash (.unconvertible s) => Binary64.read s.toList = .lookalike
  | .crash (.tooManyDigits count) => Text.digitLimit < count
  | .crash .undecodableInput => False
  | .crash _ => True

/-- A way to halt as any operation raises it. -/
def Halt.Raised (h : Halt) : Prop := h.Fresh ∨ h = .crash .undecodableInput

theorem Halt.Raised.place_eq_none {cause : Fault} {place : Option Span}
    (h : (Halt.fault cause place).Raised) : place = none := by
  rcases h with hfresh | heq
  · exact hfresh
  · cases heq

/-- The computation gives a result, or is refused in a fresh way. -/
inductive Freshly {α : Type} : Except Halt α → Prop where
  | ok (a : α) : Freshly (.ok a)
  | error {h : Halt} : h.Fresh → Freshly (.error h)

namespace Freshly

variable {α β : Type} {x : Except Halt α}

theorem fresh {h : Halt} (hx : Freshly x) (heq : x = .error h) : h.Fresh := by
  subst heq
  cases hx with
  | error hh => exact hh

theorem raised {h : Halt} (hx : Freshly x) (heq : x = .error h) : h.Raised := .inl (hx.fresh heq)

theorem bind {f : α → Except Halt β} (hx : Freshly x) (hf : ∀ a, Freshly (f a)) :
    Freshly (x >>= f) := by
  cases hx with
  | ok a => exact hf a
  | error h => exact .error h

theorem map {f : α → β} (hx : Freshly x) : Freshly (x.map f) := by
  cases hx with
  | ok a => exact .ok _
  | error h => exact .error h

theorem bind_pure {f : α → β} (hx : Freshly x) : Freshly (x >>= fun a => pure (f a)) :=
  hx.bind fun _ => .ok _

end Freshly

/-! ## Values -/

namespace Value

theorem copy_freshly (v : Value) : Freshly v.copy := by
  cases v with
  | absent => exact .error trivial
  | _ => exact .ok _

theorem integer_freshly (op : String) (n : Int) : Freshly (integer op n) := by
  unfold integer
  split
  · exact .ok _
  · exact .error rfl

theorem realOfInt_freshly (n : Int) : Freshly (realOfInt n) := by
  unfold realOfInt
  split
  · exact .error trivial
  · exact .ok _

theorem Number.toReal_freshly (n : Number) : Freshly n.toReal := by
  cases n with
  | integer n => exact realOfInt_freshly n
  | real x => exact .ok _

theorem Number.toReals_freshly (ns : List Number) : Freshly (Number.toReals ns) := by
  induction ns with
  | nil => exact .ok _
  | cons n rest ih => exact n.toReal_freshly.bind fun _ => ih.bind_pure

theorem allOf_freshly {α : Type} (f : Value → Option α) (vs : List Value) :
    Freshly (allOf f vs) := by
  fun_induction allOf f vs with
  | case1 => exact .ok _
  | case2 => exact .error trivial
  | case3 => exact .ok _
  | case4 v rest hv a hf ih => exact ih.map

theorem reals?_freshly (vs : List Value) : Freshly (reals? vs) := by
  refine (allOf_freshly number? vs).bind fun r => ?_
  cases r with
  | some ns => exact (Number.toReals_freshly ns).map
  | none => exact .ok _

theorem joinFrom_freshly (position : Nat) (texts : List Wording) :
    Freshly (joinFrom position texts) := by
  fun_induction joinFrom position texts with
  | case1 => exact .ok _
  | case2 => exact .error trivial
  | case3 position s rest ih => exact ih.map

/-! ### Operators -/

theorem add_freshly (vs : List Value) : Freshly (add vs) := by
  refine (allOf_freshly int? vs).bind fun ints => ?_
  cases ints with
  | some ns => exact integer_freshly _ _
  | none =>
      refine (reals?_freshly vs).bind fun reals => ?_
      cases reals with
      | some xs => exact .ok _
      | none =>
          refine (allOf_freshly wording? vs).bind fun texts => ?_
          cases texts with
          | some texts => exact (joinFrom_freshly 0 texts).map
          | none => exact .error rfl

theorem subtract_freshly (vs : List Value) : Freshly (subtract vs) := by
  unfold subtract
  split
  · exact .error rfl
  · refine (allOf_freshly int? _).bind fun ints => ?_
    split
    · exact (integer_freshly _ _).bind fun _ => integer_freshly _ _
    · refine (reals?_freshly _).bind fun reals => ?_
      split
      · exact .ok _
      · exact .error rfl

theorem multiply_freshly (vs : List Value) : Freshly (multiply vs) := by
  refine (allOf_freshly int? vs).bind fun ints => ?_
  cases ints with
  | some ns => exact integer_freshly _ _
  | none =>
      refine (reals?_freshly vs).bind fun reals => ?_
      cases reals with
      | some xs => exact .ok _
      | none => exact .error rfl

theorem divide_freshly (vs : List Value) : Freshly (divide vs) := by
  unfold divide
  split
  · exact .error rfl
  · refine (reals?_freshly _).bind fun reals => ?_
    split
    · exact .ok _
    · exact .error rfl

theorem isTruthy_freshly (heap : Heap) (v : Value) : Freshly (v.isTruthy heap) := by
  cases v with
  | other tag => exact .error rfl
  | missingText | absent => exact .error trivial
  | _ => exact .ok _

theorem not_freshly (heap : Heap) (v : Value) : Freshly (v.not heap) :=
  (isTruthy_freshly heap v).map

theorem and_freshly (heap : Heap) (vs : List Value) : Freshly (Value.and heap vs) := by
  refine Freshly.map ?_
  fun_induction allTrue heap vs with
  | case1 | case3 => exact .ok _
  | case2 v rest htrue ih => exact ih
  | case4 v rest h herror =>
      have hv := isTruthy_freshly heap v
      rw [herror] at hv
      exact hv

theorem or_freshly (heap : Heap) (vs : List Value) : Freshly (Value.or heap vs) := by
  refine Freshly.map ?_
  fun_induction anyTrue heap vs with
  | case1 | case2 => exact .ok _
  | case3 v rest hfalse ih => exact ih
  | case4 v rest h herror =>
      have hv := isTruthy_freshly heap v
      rw [herror] at hv
      exact hv

theorem compareReals_freshly (x y : Binary64) : Freshly (compareReals x y) := by
  unfold compareReals
  split
  · exact .ok _
  · exact .error rfl

theorem compare_freshly (v w : Value) : Freshly (v.compare w) := by
  fun_cases compare v w with
  | case1 | case2 | case5 | case6 | case7 => exact .error trivial
  | case3 | case4 => exact .ok _
  | case8 | case9 =>
      split
      · exact (Number.toReal_freshly _).bind fun x => (Number.toReal_freshly _).bind fun y =>
          compareReals_freshly x y
      · exact .error rfl

/-! ### Casts -/

theorem parseInteger_freshly (op s : String) : Freshly (parseInteger op s) := by
  unfold parseInteger
  split
  · split
    · rename_i hmany
      exact .error hmany
    · exact integer_freshly _ _
  · exact .error rfl

theorem parseReal_freshly (op s : String) : Freshly (parseReal op s) := by
  unfold parseReal
  split
  · exact .ok _
  · exact .error rfl
  · rename_i hread
    exact .error hread

theorem castInteger_freshly (op : String) (v : Value) : Freshly (v.castInteger op) := by
  cases v with
  | int => exact .ok _
  | missingText => exact .error trivial
  | real x => exact integer_freshly _ _
  | text s => exact parseInteger_freshly _ _
  | _ => exact .error rfl

theorem castReal_freshly (op : String) (v : Value) : Freshly (v.castReal op) := by
  cases v with
  | int n =>
      unfold castReal
      exact (realOfInt_freshly n).map
  | real => exact .ok _
  | missingText => exact .error trivial
  | text s => exact parseReal_freshly _ _
  | _ => exact .error rfl

theorem castText_freshly (op : String) (v : Value) : Freshly (v.castText op) := by
  unfold castText
  split
  · exact .ok _
  · exact .ok _
  · exact .error rfl

/-! ### The text of values -/

theorem formatAll_freshly {format : Value → Except Halt String} (h : ∀ v, Freshly (format v))
    (vs : List Value) : Freshly (formatAll format vs) := by
  induction vs with
  | nil => exact .ok _
  | cons v rest ih =>
      unfold formatAll
      have hv := h v
      generalize format v = shown at hv
      cases hv with
      | ok shown => exact ih.map
      | error he => exact .error he

theorem formatWithin_freshly (heap : Heap) (room : Nat) (path : List Nat) (nested : Bool)
    (v : Value) : Freshly (v.formatWithin heap room path nested) := by
  induction room generalizing path nested v with
  | zero =>
      cases v with
      | absent => exact .error trivial
      | _ => exact .ok _
  | succ room ih =>
      cases v with
      | list id =>
          unfold formatWithin
          split
          · exact .ok _
          · exact (formatAll_freshly (ih _ true) _).map
      | absent => exact .error trivial
      | _ => exact .ok _

end Value

/-! ## Lists -/

namespace Heap

variable (h : Heap) (op : String) (id : Nat)

theorem checkMutable_freshly : Freshly (h.checkMutable op id) := by
  unfold checkMutable
  split
  · exact .ok _
  · exact .error rfl

theorem position_freshly (index : Int) : Freshly (h.position op id index) := by
  unfold position
  split
  · exact .ok _
  · exact .error rfl

theorem get_freshly (index : Int) : Freshly (h.get op id index) := by
  refine (h.position_freshly op id index).bind fun i => ?_
  split
  · exact .ok _
  · exact .error rfl

theorem set_freshly (index : Int) (v : Value) : Freshly (h.set op id index v) :=
  (h.checkMutable_freshly op id).bind fun _ => (h.position_freshly op id index).bind_pure

theorem push_freshly (v : Value) : Freshly (h.push op id v) :=
  (h.checkMutable_freshly op id).bind_pure

theorem pop_freshly : Freshly (h.pop op id) := by
  refine (h.checkMutable_freshly op id).bind fun _ => ?_
  split
  · exact .ok _
  · exact .error rfl

end Heap

/-! ## Native functions -/

theorem checkTypes_freshly (name : String) (position : Nat) (args : List Value)
    (expected : List (Option String)) : Freshly (checkTypes name position args expected) := by
  fun_induction checkTypes name position args expected with
  | case1 position v args rest ih => exact ih
  | case2 position v args rest type htype ih => exact ih
  | case3 => exact .error rfl
  | case4 => exact .ok _

theorem checkArguments_freshly (name : String) (args : List Value)
    (expected : List (Option String)) : Freshly (checkArguments name args expected) := by
  unfold checkArguments
  split
  · exact checkTypes_freshly _ _ _ _
  · exact .error rfl

theorem Store.checkLine_error {s : Store} {h : Halt} (heq : s.checkLine = .error h) :
    h = .crash .undecodableInput ∧ s.stdin.broken = true := by
  unfold checkLine at heq
  split at heq
  · rename_i hline
    cases heq
    exact ⟨rfl, hline.1⟩
  · cases heq

namespace Native

theorem checkPath_freshly (path : String) : Freshly (checkPath path) := by
  unfold checkPath
  split
  · exact .error trivial
  · exact .ok _

theorem readText_freshly (files : Files) (path : String) : Freshly (readText files path) := by
  unfold readText
  split
  · exact .error rfl
  · split
    · exact .error rfl
    · exact .ok _

theorem openable_freshly (files : Files) (path : String) : Freshly (openable files path) := by
  unfold openable
  split
  · exact .error rfl
  · exact .ok _

theorem writeText_freshly (files : Files) (path contents : String) (append : Bool) :
    Freshly (writeText files path contents append) :=
  (openable_freshly files path).map

/-- Writing a file reads no input. -/
theorem writeTo_fresh {path contents : String} {append : Value} {s t : State} {h : Halt}
    (heq : writeTo path contents append s = .halted h t) : h.Fresh := by
  unfold writeTo Run.onStore at heq
  split at heq
  · cases heq
  · rename_i herror
    cases heq
    refine Freshly.fresh ?_ herror
    exact (append.isTruthy_freshly _).bind fun _ => (checkPath_freshly path).bind fun _ =>
      (writeText_freshly _ _ _ _).bind_pure

theorem asciiText_freshly (code : Int) : Freshly (asciiText code) := by
  unfold asciiText
  split
  · exact .ok _
  · exact .error rfl

theorem asciiCode_freshly (s : String) : Freshly (asciiCode s) := by
  unfold asciiCode
  split
  · split
    · exact .ok _
    · exact .error rfl
  · exact .error rfl

/-- The call of a native function halts in a fresh way, or over input that cannot be decoded. -/
theorem effect_error {f : Native} {args : List Value} {s : Store} {h : Halt}
    (heq : f.effect args s = .error h) :
    h.Fresh ∨ h = .crash .undecodableInput ∧ s.stdin.broken = true := by
  by_cases hinput : f = .input ∧ args = []
  · obtain ⟨rfl, rfl⟩ := hinput
    cases hline : s.checkLine with
    | ok u =>
        simp only [effect, hline] at heq
        cases heq
    | error k =>
        simp only [effect, hline] at heq
        cases heq
        exact .inr (Store.checkLine_error hline)
  · have hfreshly : Freshly (f.effect args s) := by
      fun_cases effect f args s with
      | case1 | case2 => exact (Value.formatWithin_freshly _ _ _ _ _).bind_pure
      | case3 => exact absurd ⟨rfl, rfl⟩ hinput
      | case4 | case5 => exact .ok _
      | case6 | case7 => exact .error trivial
      | case8 => exact (asciiText_freshly _).bind_pure
      | case9 => exact (asciiCode_freshly _).bind_pure
      | case10 => exact .error trivial
      | case11 => exact (Heap.set_freshly _ _ _ _ _).bind_pure
      | case12 => exact (Heap.push_freshly _ _ _ _).bind_pure
      | case13 => exact (Heap.pop_freshly _ _ _).bind_pure
      | case14 => exact (Heap.get_freshly _ _ _ _).bind fun v => v.copy_freshly.bind_pure
      | case15 => exact (Value.integer_freshly _ _).bind_pure
      | case16 => exact (checkPath_freshly _).bind fun _ => (readText_freshly _ _).bind_pure
      | case17 => exact .error trivial
      | case18 => exact .ok _
      | case19 => exact .error rfl
    exact .inl (hfreshly.fresh heq)

theorem effect_raised {f : Native} {args : List Value} {s : Store} {h : Halt}
    (heq : f.effect args s = .error h) : h.Raised :=
  (effect_error heq).imp_right And.left

end Native

/-! ## Calls -/

theorem callLine_freshly (f : Closure) (args : List Value) (scope : Scope) (s : State) :
    Freshly (Eval.callLine f args scope s) :=
  (Value.formatAll_freshly (fun v => v.formatWithin_freshly _ _ _ _) args).map

theorem calleeOuter_freshly (scope : Scope) (frame : Frame) (outer : List Frame) :
    Freshly (Eval.calleeOuter scope frame outer) := by
  cases scope with
  | unknown word => exact .error trivial
  | _ => exact .ok _

end TagScript
