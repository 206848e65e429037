import TagScript.Proofs.Integer.Numeral
import TagScript.Proofs.Location.Innermost
import TagScript.Proofs.Safety.Input

set_option autoImplicit false

/-! # Which crashes a run can come to

A run of an analysed program that does not reach the end of its main block halts with a fault that
has a place, or crashes. There are four crashes that it can come to: a path that holds a null
character is given to the file system, a text is converted to a real number that passes for a
numeral only because a letter in it counts as an i, a numeral has too many digits to be read, or a
line is read where the input cannot be decoded. Texts are sequences of characters: what a lone
surrogate in a text would lead to is not spoken of here. -/

namespace TagScript

open Markup (Node)

/-- A lookalike of a numeral holds one of the letters that count as an i. -/
theorem Binary64.mem_of_lookalike {s : List Char} (h : read s = .lookalike) :
    ∃ c ∈ s, c = 'İ' ∨ c = 'ı' := by
  have hbody : (Text.splitSign s).2 ⊆ s := by
    unfold Text.splitSign
    split
    · exact List.subset_cons_self _ _
    · exact List.subset_cons_self _ _
    · exact fun _ hc => hc
  unfold read at h
  simp only at h
  split at h
  · split at h
    · rename_i hany
      obtain ⟨c, hc, hcase⟩ := List.any_eq_true.1 hany
      exact ⟨c, hbody hc, by simpa using hcase⟩
    · split at h <;> cases h
  · split at h <;> cases h

/-- The crashes that a run on the given input can come to. -/
inductive Crash.Escapes (stdin : Input) : Crash → Prop where
  | nullInPath : Escapes stdin .nullInPath
  | unconvertible {text : String} : Binary64.read text.toList = .lookalike →
      (∃ c ∈ text.toList, c = 'İ' ∨ c = 'ı') → Escapes stdin (.unconvertible text)
  | tooManyDigits {count : Nat} : Text.digitLimit < count → Escapes stdin (.tooManyDigits count)
  | undecodableInput : stdin.broken = true → Escapes stdin .undecodableInput

/-- What is raised, is ordinary and is no fault is one of the crashes. -/
theorem Crash.escapes_of_raised {stdin : Input} {cause : Crash}
    (hordinary : (Halt.crash cause).Ordinary) (hraised : (Halt.crash cause).Raised)
    (hinput : cause = .undecodableInput → stdin.broken = true) : cause.Escapes stdin := by
  rcases hraised with hfresh | heq
  · cases cause with
    | nullInPath => exact .nullInPath
    | unconvertible text => exact .unconvertible hfresh (Binary64.mem_of_lookalike hfresh)
    | tooManyDigits count => exact .tooManyDigits hfresh
    | undecodableInput => exact absurd hfresh id
    | _ => exact absurd hordinary id
  · cases heq
    exact .undecodableInput (hinput rfl)

/-- A run of an analysed program that halts ends in a fault that has a place, or in one of four
    crashes: a null character in the path of a file, the conversion of a text that only looks like a
    real number, a numeral of too many digits, or a line of input that cannot be decoded. -/
theorem halts_placed_or_crashed {root : Node} {p : Program}
    (hp : (Analysis.program root).outcome = .ok p) {opts : Options} {fuel : Nat}
    {arguments : List String} {files : Files} {stdin : Input} {h : Halt} {t : State}
    (hrun : p.run opts fuel arguments (Program.start files stdin) = .halted h t) :
    (∃ cause span, h = .fault cause (some span)) ∨
      ∃ cause, h = .crash cause ∧ cause.Escapes stdin := by
  have hshaped := Analysis.program_shaped hp
  obtain ⟨culprit, raw, hr⟩ := Program.exists_raises hrun
  obtain ⟨n, _, hspan⟩ := Analysis.program_spans hp culprit (hr.culprit_mem hshaped)
  obtain ⟨u, hu⟩ := hr.outcome hspan
  obtain rfl : h = raw.locate (some n.span) := (Outcome.halted.inj (hrun.symm.trans hu)).1
  cases raw with
  | fault cause place =>
      obtain rfl : place = none := hr.raised.place_eq_none
      exact .inl ⟨cause, n.span, rfl⟩
  | crash cause =>
      let w : Watch := ⟨p, arguments, opts, fun _ _ _ _ => True, .crash cause, hshaped⟩
      have hends := (w.run_safe (Watch.passes_true rfl 0) fuel _ (w.kept_start files stdin)).1
      have hcrash : w.program.run w.opts fuel w.arguments (Program.start files stdin)
          = .halted (.crash cause) t := hrun
      rw [hcrash] at hends
      cases hends with
      | halted _ hordinary =>
          refine .inr ⟨cause, rfl, Crash.escapes_of_raised hordinary hr.raised fun heq => ?_⟩
          subst heq
          exact Program.broken_of_undecodable hrun

/-! ## Programs that crash -/

/-- The document whose main block is one element. -/
def mainDocument (element : Node) : Node :=
  let extent : Markup.Extent := ⟨⟨"", 1, 1, 1, 1⟩, false⟩
  .mk "program" [] [.mk "main" [] [element] extent] extent

/-- A literal of a number, by its tag and its text. -/
def literalElement (tag text : String) : Node :=
  .mk tag [("value", text)] [] ⟨⟨"", 1, 1, 1, 1⟩, true⟩

/-- The call of a function on the values of elements. -/
def callElement (function : String) (arguments : List Node) : Node :=
  let extent : Markup.Extent := ⟨⟨"", 1, 1, 1, 1⟩, false⟩
  .mk "call" [("function", function)] [.mk "arguments" [] arguments extent] extent

/-- The reading of a file whose path is the null character. -/
def nullPathCall : Node :=
  callElement "read-file" [callElement "to-ascii" [literalElement "integer" "0"]]

/-- Some analysed program crashes in this way on the input. -/
def Crash.Reached (cause : Crash) (stdin : Input) : Prop :=
  ∃ root p t, (Analysis.program root).outcome = .ok p ∧
    p.run {} 9 [] (Program.start {} stdin) = .halted (.crash cause) t

/-- A program that is one instruction crashes if the performance of the instruction does. -/
theorem run_singleton {i : Instr} {cause : Crash} {files : Files} {stdin : Input}
    (h : ∀ outer, Eval.perform {} (eval {} 8) 8 outer i = Run.halt (.crash cause)) :
    ({ functions := [], main := [i] } : Program).run {} 9 [] (Program.start files stdin)
      = .halted (.crash cause) (Program.start files stdin) := by
  have hopen : (Program.start files stdin).Open := rfl
  refine Run.bind_halted (m := eval {} 9 _ i) ?_
  show Eval.step {} (eval {} 8) 8 _ i _ = _
  rw [Eval.step_of_open _ _ _ _ _ hopen, h]
  rfl

theorem Crash.reached_of_parseInteger {s : String} {cause : Crash}
    (h : Value.parseInteger "integer" s = .error (.crash cause)) (stdin : Input) :
    cause.Reached stdin := by
  let i : Instr := .mk .integer (some s) [] [] [] (some ⟨"", 1, 1, 1, 1⟩)
  refine ⟨mainDocument (literalElement "integer" s), ⟨[], [i]⟩, _, rfl, run_singleton fun _ => ?_⟩
  have hliteral : Eval.literal i = pure s := rfl
  show (Eval.literal i >>= fun s => Run.lift (Value.parseInteger "integer" s) >>= fun v =>
    pure (some v)) = _
  rw [hliteral, pure_bind, h]
  rfl

theorem Crash.reached_of_parseReal {s : String} {cause : Crash}
    (h : Value.parseReal "float" s = .error (.crash cause)) (stdin : Input) :
    cause.Reached stdin := by
  let i : Instr := .mk .real (some s) [] [] [] (some ⟨"", 1, 1, 1, 1⟩)
  refine ⟨mainDocument (literalElement "float" s), ⟨[], [i]⟩, _, rfl, run_singleton fun _ => ?_⟩
  have hliteral : Eval.literal i = pure s := rfl
  show (Eval.literal i >>= fun s => Run.lift (Value.parseReal "float" s) >>= fun v =>
    pure (some v)) = _
  rw [hliteral, pure_bind, h]
  rfl

/-- None of the crashes is there for nothing: each is reached, on some input. -/
theorem Crash.Escapes.reached {stdin : Input} {cause : Crash} (h : cause.Escapes stdin) :
    ∃ input, cause.Reached input := by
  cases h with
  | nullInPath => exact ⟨{}, mainDocument nullPathCall, _, _, rfl, rfl⟩
  | @unconvertible text hread _ =>
      exact ⟨{}, reached_of_parseReal (s := text) (by simp only [Value.parseReal, hread]) _⟩
  | @tooManyDigits count hcount =>
      have hzeros : Text.digitLimit ≤ count - 1 := Nat.le_sub_one_of_lt hcount
      have hread := Value.parseInteger_zeros "integer" hzeros
      rw [Nat.sub_add_cancel (Nat.one_le_of_lt hcount)] at hread
      exact ⟨{}, reached_of_parseInteger hread _⟩
  | undecodableInput =>
      exact ⟨{ broken := true }, mainDocument (callElement "input" []), _, _, rfl, rfl⟩

/-- Not every run of an analysed program that halts ends in a fault. -/
theorem halts_not_only_placed :
    ¬ ∀ (root : Node) (p : Program), (Analysis.program root).outcome = .ok p →
      ∀ fuel h t, p.run {} fuel [] (Program.start {} {}) = .halted h t →
        ∃ cause span, h = .fault cause span := by
  intro hall
  obtain ⟨root, p, t, hp, hrun⟩ : (Crash.unconvertible "ınf").Reached {} :=
    Crash.reached_of_parseReal (s := "ınf") rfl {}
  obtain ⟨cause, span, heq⟩ := hall root p hp 9 _ t hrun
  cases heq

/-- The reading of a file comes to a crash. -/
theorem halts_placed_or_crashed_null :
    ∃ p t, (Analysis.program (mainDocument nullPathCall)).outcome = .ok p ∧
      p.run {} 9 [] (Program.start {} {}) = .halted (.crash .nullInPath) t ∧
      ((∃ cause span, Halt.crash .nullInPath = .fault cause (some span)) ∨
        ∃ cause, Halt.crash .nullInPath = .crash cause ∧ cause.Escapes {}) := by
  obtain ⟨p, hp, t, hrun⟩ : ∃ p, (Analysis.program (mainDocument nullPathCall)).outcome = .ok p ∧
      ∃ t, p.run {} 9 [] (Program.start {} {}) = .halted (.crash .nullInPath) t :=
    ⟨_, rfl, _, rfl⟩
  exact ⟨p, t, hp, hrun, halts_placed_or_crashed hp hrun⟩

end TagScript
